/-
  Calls that write the store, and runs of them.

  Every call of the library writes one table (`StoreCall.table`) and leaves the others alone
  (`StoreCall.rows?_run`): the calls on the queue, those on builds, on isolated solutions and
  on kept results, and whatever is written elsewhere.  What each call keeps holds after a run
  of them (`StoreCall.after_induction`).  In particular jobs only ever advance along a run,
  whatever else is written in between (`StoreCall.jobsAdvance_after`).
-/
import Gunsmith.Proofs.Queue.Advances
import Gunsmith.Proofs.Store.Isolated

namespace Gunsmith

namespace Transaction

theorem onlyWrites_clearIsolated : OnlyWrites .isolated clearIsolated :=
  .bind (.rows _) fun _ => .write _

theorem onlyWrites_purgeIsolated (version : String) :
    OnlyWrites .isolated (purgeIsolated version) :=
  .bind (.rows _) fun _ => .bind (.write _) fun _ => .pure _

theorem onlyWrites_purgeSubtrees (version : String) :
    OnlyWrites .subtrees (purgeSubtrees version) :=
  .bind (.rows _) fun _ => .bind (.write _) fun _ => .pure _

end Transaction

/-- Calls on the queue write the jobs only. -/
theorem QueueCall.rows?_run (call : QueueCall) (s : Store) {t : Table} (ht : t ≠ .jobs) :
    (call.run s).2.rows? t = s.rows? t := by
  cases call with
  | enqueue m itemId stat c priority =>
    exact (Transaction.onlyWrites_enqueue m itemId stat c priority).call s ht
  | claim m => exact (Transaction.onlyWrites_claim m).call s ht
  | update m id u =>
    rw [run, u.action_eq]
    exact (Transaction.onlyWrites_moveJob _ _ _ _).call s ht

/-- A call that writes the store, with all that it is given. -/
inductive StoreCall where
  | queue (call : QueueCall)
  | build (m : Moment) (itemId : String) (stat : Stat) (c : Constraints) (version : String)
    (status : BuildStatus) (result : Option BuildResult)
  | spoil (m : Moment) (id error : String)
  | setIsolated (levels : TraderLevels) (version : String) (entry : CacheEntry)
  | clearIsolated
  | purgeIsolated (version : String)
  | keep (entry : SubtreeEntry)
  | purgeSubtrees (version : String)
  | elsewhere (t : Table) (ht : t ∉ [.jobs, .builds, .isolated, .subtrees])
    (action : Transaction Unit) (haction : Transaction.OnlyWrites t action)

namespace StoreCall

/-- The table that a call writes. -/
def table : StoreCall → Table
  | .queue _ => .jobs
  | .build .. => .builds
  | .spoil .. => .builds
  | .setIsolated .. => .isolated
  | .clearIsolated => .isolated
  | .purgeIsolated _ => .isolated
  | .keep _ => .subtrees
  | .purgeSubtrees _ => .subtrees
  | .elsewhere t .. => t

/-- The store after a call, whether it succeeds or fails. -/
def run : StoreCall → Store → Store
  | .queue call, s => (call.run s).2
  | .build m itemId stat c version status result, s =>
    ((Transaction.upsertBuild m itemId stat c version status result).call s).2
  | .spoil m id error, s => ((Transaction.markFailed m id error).call s).2
  | .setIsolated levels version entry, s =>
    ((Transaction.setIsolated levels version entry).call s).2
  | .clearIsolated, s => (Transaction.clearIsolated.call s).2
  | .purgeIsolated version, s => ((Transaction.purgeIsolated version).call s).2
  | .keep entry, s => ((Transaction.upsertSubtree entry).call s).2
  | .purgeSubtrees version, s => ((Transaction.purgeSubtrees version).call s).2
  | .elsewhere _ _ action _, s => (action.call s).2

/-- The store after some calls. -/
def after (calls : List StoreCall) (s : Store) : Store :=
  calls.foldl (fun s call => call.run s) s

variable {s : Store} {calls : List StoreCall}

/-- A call leaves the other tables alone. -/
theorem rows?_run (call : StoreCall) (s : Store) {t : Table} (ht : t ≠ call.table) :
    (call.run s).rows? t = s.rows? t := by
  cases call with
  | queue call => exact call.rows?_run s ht
  | build m itemId stat c version status result =>
    exact (Transaction.onlyWrites_upsertBuild m itemId stat c version status result).call s ht
  | spoil m id error => exact (Transaction.onlyWrites_markFailed m id error).call s ht
  | setIsolated levels version entry =>
    exact (Transaction.onlyWrites_setIsolated levels version entry).call s ht
  | clearIsolated => exact Transaction.onlyWrites_clearIsolated.call s ht
  | purgeIsolated version => exact (Transaction.onlyWrites_purgeIsolated version).call s ht
  | keep entry => exact (Transaction.onlyWrites_upsertSubtree entry).call s ht
  | purgeSubtrees version => exact (Transaction.onlyWrites_purgeSubtrees version).call s ht
  | elsewhere _ _ action haction => exact haction.call s ht

/-- What every one of some calls keeps holds after all of them. -/
theorem after_induction {P : Store → Prop} (h : P s)
    (hstep : ∀ call ∈ calls, ∀ s, P s → P (call.run s)) : P (after calls s) := by
  induction calls generalizing s with
  | nil => exact h
  | cons call calls ih =>
    exact ih (hstep call List.mem_cons_self s h) fun call hcall =>
      hstep call (List.mem_cons_of_mem _ hcall)

/-- Whatever a call writes, jobs only advance. -/
theorem jobsAdvance (h : s.JobTable s.jobRows) (call : StoreCall) : s.JobsAdvance (call.run s) := by
  by_cases htable : call.table = .jobs
  · cases call with
    | queue call => exact .of_run h call
    | elsewhere _ ht _ _ =>
      obtain rfl := htable
      exact absurd List.mem_cons_self ht
    | _ => cases htable
  · exact .of_rows_eq h (rows?_run call s (Ne.symm htable))

/-- **Jobs only advance** along a run. -/
theorem jobsAdvance_after (h : s.JobTable s.jobRows) (calls : List StoreCall) :
    s.JobsAdvance (after calls s) :=
  after_induction (.refl h) fun call _ _ h' => h'.trans (jobsAdvance h'.table call)

end StoreCall

end Gunsmith
