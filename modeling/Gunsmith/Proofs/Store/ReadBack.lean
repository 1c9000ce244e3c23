/-
  What a store writes is what it reads back.

  Jobs, builds, isolated solutions and kept results are written as texts and numbers in the
  columns of a row, and read off them later.  For each of the four there is one row in which
  a write ends up, and a call that is about something else leaves that row alone, or moves
  the job in it on.  So what was written is read by the next look-up and by every later one,
  after whatever calls that are not about the same thing.

  For a job its id names the row (`Store.holdsJob_enqueue`).  For a build it is the key of the
  request, of which the constraints are but a part: the row keeps the constraints that were
  written first, so those of a later write are read only if no others with the same key were
  there before (`Store.BuildsFor`).  A kept result is replaced by one that reaches as deep
  (`Store.HoldsKept`).

  `Store.ReadsBack` collects the four, and `Store.readsBack` proves them for every store that
  has the tables.
-/
import Gunsmith.Proofs.Cache.Backends
import Gunsmith.Proofs.Store.Writes

namespace Gunsmith

/-! ### Jobs -/

/-- The jobs are of the same request: what is asked for, how urgently, and since when. -/
structure Job.SameRequest (a b : Job) : Prop where
  id : b.id = a.id
  itemId : b.itemId = a.itemId
  stat : b.stat = a.stat
  constraints : b.constraints = a.constraints
  priority : b.priority = a.priority
  createdAt : b.createdAt = a.createdAt

namespace Job.SameRequest

variable {a b c : Job}

theorem refl (a : Job) : a.SameRequest a := ⟨rfl, rfl, rfl, rfl, rfl, rfl⟩

theorem trans (h : a.SameRequest b) (h' : b.SameRequest c) : a.SameRequest c :=
  ⟨h'.id.trans h.id, h'.itemId.trans h.itemId, h'.stat.trans h.stat,
    h'.constraints.trans h.constraints, h'.priority.trans h.priority,
    h'.createdAt.trans h.createdAt⟩

end Job.SameRequest

namespace JobRow

variable {a b row : JobRow} {j j' : Job}

/-- A row decodes to one job. -/
theorem Decodes.unique (h : row.Decodes j) (h' : row.Decodes j') : j = j' :=
  Except.ok.inj ((job_eq_ok.mpr h).symm.trans (job_eq_ok.mpr h'))

/-- A row that is moved on decodes to a job of the same request. -/
theorem Decodes.of_advances (h : a.Decodes j) (hadvance : a.Advances b) :
    ∃ j', b.Decodes j' ∧ j.SameRequest j' := by
  cases hadvance with
  | stay => exact ⟨j, h, .refl j⟩
  | move u now _ =>
    refine ⟨{ j with
        status := u.target
        startedAt := (u.apply now a).startedAt
        completedAt := (u.apply now a).completedAt
        error := (u.apply now a).error }, ?_, rfl, rfl, rfl, rfl, rfl, rfl⟩
    cases u <;>
      exact ⟨h.stat, h.constraints, rfl, h.id, h.itemId, h.priority, h.createdAt, rfl, rfl, rfl⟩

theorem Decodes.of_advances_all (h : a.Decodes j)
    (hadvances : Relation.ReflTransGen Advances a b) : ∃ j', b.Decodes j' ∧ j.SameRequest j' := by
  induction hadvances with
  | refl => exact ⟨j, h, .refl j⟩
  | tail _ hadvance ih =>
    obtain ⟨j₁, h₁, hsame⟩ := ih
    obtain ⟨j₂, h₂, hsame'⟩ := h₁.of_advances hadvance
    exact ⟨j₂, h₂, hsame.trans hsame'⟩

end JobRow

namespace Store

variable {s s' : Store} {j : Job}

/-- The row of a job decodes to one of the same request. -/
structure HoldsJob (s : Store) (j : Job) : Prop where
  table : s.JobTable s.jobRows
  row : ∃ (i : Nat) (row : JobRow) (j' : Job), s.jobRows[i]? = some row ∧ row.Decodes j' ∧
    j.SameRequest j'

/-- A job stays held while the jobs advance. -/
theorem HoldsJob.advance (h : s.HoldsJob j) (hadvance : s.JobsAdvance s') : s'.HoldsJob j where
  table := hadvance.table
  row := by
    obtain ⟨i, row, j₁, hrow, hdecodes, hsame⟩ := h.row
    obtain ⟨row', hrow', hadvances⟩ := hadvance.advances i row hrow
    obtain ⟨j₂, hdecodes', hsame'⟩ := hdecodes.of_advances_all hadvances
    exact ⟨i, row', j₂, hrow', hdecodes', hsame.trans hsame'⟩

/-- A job that is held is found by its id. -/
theorem HoldsJob.job? (h : s.HoldsJob j) :
    ∃ j', s.job? j.id = .ok (some j') ∧ j.SameRequest j' := by
  obtain ⟨i, row, j', hrow, hdecodes, hsame⟩ := h.row
  have hid : j.id = row.id := hsame.id.symm.trans hdecodes.id
  refine ⟨j', ?_, hsame⟩
  rw [job?_eq h.table.jobs, hid, h.table.find?_id hrow]
  simp only [JobRow.job_eq_ok.mpr hdecodes]
  rfl

/-- A claim that answers a job that is held answers it with what was asked for. -/
theorem HoldsJob.of_claimed (h : s.HoldsJob j) {m : Moment} {job : Job}
    (hrun : ((QueueCall.claim m).run s).1 = .ok (.claimed (some job))) (hid : job.id = j.id) :
    j.SameRequest job := by
  obtain ⟨i, row, j', hrow, hdecodes, hsame⟩ := h.row
  obtain ⟨rows', heffect, -⟩ := QueueCall.run_effect h.table (.claim m)
  rw [hrun] at heffect
  cases heffect with
  | claimed hfirst hjob =>
    -- Ids are keys, so the row first in line is the one that holds the job.
    have hrowId := hjob.id.symm.trans (hid.trans (hsame.id.symm.trans hdecodes.id))
    obtain rfl := h.table.position_unique hrow hfirst.stands hrowId
    obtain rfl := Option.some.inj (hrow.symm.trans hfirst.stands)
    obtain rfl := hjob.unique hdecodes
    exact ⟨hsame.id, hsame.itemId, hsame.stat, hsame.constraints, hsame.priority,
      hsame.createdAt⟩

/-- A job that is held is claimed when it is first in line. -/
theorem HoldsJob.claimed (h : s.HoldsJob j) (m : Moment) {i : Nat} {row : JobRow}
    (hfirst : JobRow.FirstInLine s.jobRows i row) (hid : row.id = j.id) :
    ∃ job, ((QueueCall.claim m).run s).1 = .ok (.claimed (some job)) ∧ j.SameRequest job := by
  obtain ⟨k, held, j', hheld, hdecodes, hsame⟩ := h.row
  obtain rfl := h.table.position_unique hheld hfirst.stands
    (hid.trans (hsame.id.symm.trans hdecodes.id))
  obtain rfl := Option.some.inj (hheld.symm.trans hfirst.stands)
  refine ⟨_, congrArg Prod.fst (QueueCall.answering_ok (claim_readable h.table hfirst hdecodes m)),
    ?_⟩
  exact ⟨hsame.id, hsame.itemId, hsame.stat, hsame.constraints, hsame.priority, hsame.createdAt⟩

/-- A job that is entered is held. -/
theorem holdsJob_enqueue (h : s.JobTable s.jobRows) {m : Moment} {itemId : String}
    {c : Constraints} (hvalid : c.validate = .ok ()) (hitem : Text.isAllBlank itemId = false)
    (hid : m.fresh ∉ s.jobRows.map JobRow.id) (stat : Stat) (priority : Int) :
    ∃ s', (Transaction.enqueue m itemId stat c priority).call s = (.ok m.fresh, s') ∧
      s'.HoldsJob (Transaction.entered m itemId stat c priority) := by
  have hcall := Transaction.enqueue_of_accepted h.jobs hvalid hitem hid stat priority
  have hsound : (Transaction.entered m itemId stat c priority).Sound := ⟨hvalid, fun _ => rfl⟩
  refine ⟨_, Transaction.call_ok hcall, (h.append hid).self, ?_⟩
  refine ⟨s.jobRows.length, _, _, ?_, JobRow.job_eq_ok.mp (Job.job_row hsound), .refl _⟩
  exact List.getElem?_concat_length

end Store

/-! ### Builds -/

namespace StoreCall

/-- The call writes the build under a key for constraints other than the given ones. -/
def BuildsForOther (key : BuildKey) (c : Constraints) : StoreCall → Prop
  | .build _ itemId stat c' version _ _ => .of itemId stat c' version = key ∧ c' ≠ c
  | _ => False

/-- The call writes the build under a key, or fails the one with an id. -/
def WritesBuild (key : BuildKey) (id : String) : StoreCall → Prop
  | .build _ itemId stat c version _ _ => .of itemId stat c version = key
  | .spoil _ id' _ => id' = id
  | _ => False

end StoreCall

namespace Store

variable {s : Store} {key : BuildKey} {c : Constraints} {row : BuildRow} {call : StoreCall}
  {rows : List BuildRow}

theorem builds_run_build (h : s.builds = some rows) (m : Moment) (itemId : String) (stat : Stat)
    (c : Constraints) (version : String) (status : BuildStatus) (result : Option BuildResult) :
    ((StoreCall.build m itemId stat c version status result).run s).builds =
      some (Transaction.withBuild m itemId stat c version status result rows) := by
  rw [StoreCall.run,
    Transaction.call_ok (Transaction.upsertBuild_eq h m itemId stat c version status result)]
  rfl

theorem builds_run_spoil (h : s.builds = some rows) (m : Moment) (id error : String) :
    ((StoreCall.spoil m id error).run s).builds =
      some (updateRows (fun row => row.id == id) (Transaction.failedRow m error) rows).1 := by
  rw [StoreCall.run]
  rcases Transaction.markFailed_eq h m id error with ⟨e, herror, hcount⟩ | hok
  · rw [Transaction.call_error herror, h, updateRows_eq_self hcount]
  · rw [Transaction.call_ok hok]
    rfl

/-- What is stored under a key is for the constraints, if anything is. -/
def BuildsFor (s : Store) (key : BuildKey) (c : Constraints) : Prop :=
  ∃ rows, s.builds = some rows ∧ ∀ row ∈ rows, row.key = key →
    Column.json 4 Constraints.ofJson? row.constraints = .ok c

/-- The row is the one that is found under a key. -/
def HoldsBuild (s : Store) (key : BuildKey) (row : BuildRow) : Prop :=
  ∃ rows, s.builds = some rows ∧ rows.find? (fun row => row.key = key) = some row

/-- What is stored under a key stays what it is for, unless it is written for others. -/
theorem BuildsFor.run (h : s.BuildsFor key c) (hvalid : c.validate = .ok ())
    (hcall : ¬ call.BuildsForOther key c) : (call.run s).BuildsFor key c := by
  obtain ⟨rows, hrows, hfor⟩ := h
  by_cases htable : call.table = .builds
  swap
  · exact ⟨rows, (call.rows?_run s (Ne.symm htable)).trans hrows, hfor⟩
  cases call with
  | build m itemId stat c' version status result =>
    refine ⟨_, builds_run_build hrows m itemId stat c' version status result, ?_⟩
    intro row hrow hkey
    -- An old row keeps its constraints even if it is written; only a new one has those given.
    rcases mem_upsertRow hrow with hold | ⟨old, hold, -, rfl⟩ | rfl
    · exact hfor row hold hkey
    · exact hfor old hold hkey
    · have hc : c' = c := by
        by_contra hne
        exact hcall ⟨hkey, hne⟩
      rw [← hc] at hvalid ⊢
      exact Column.json_print 4 (Constraints.ofJson?_toJson hvalid)
  | spoil m id error =>
    refine ⟨_, builds_run_spoil hrows m id error, fun row hrow hkey => ?_⟩
    rcases mem_updateRows hrow with hold | ⟨old, hold, -, rfl⟩
    · exact hfor row hold hkey
    · exact hfor old hold hkey
  | elsewhere _ ht _ _ =>
    obtain rfl := htable
    exact absurd (by decide) ht
  | _ => cases htable

theorem BuildsFor.after (h : s.BuildsFor key c) (hvalid : c.validate = .ok ())
    {calls : List StoreCall} (hcalls : ∀ call ∈ calls, ¬ call.BuildsForOther key c) :
    (StoreCall.after calls s).BuildsFor key c :=
  StoreCall.after_induction (P := fun s => s.BuildsFor key c) h fun call hcall _ hs =>
    hs.run hvalid (hcalls call hcall)

/-- The row of a build stays, unless it is written or failed. -/
theorem HoldsBuild.run (h : s.HoldsBuild key row) (hcall : ¬ call.WritesBuild key row.id) :
    (call.run s).HoldsBuild key row := by
  obtain ⟨rows, hrows, hfind⟩ := h
  by_cases htable : call.table = .builds
  swap
  · exact ⟨rows, (call.rows?_run s (Ne.symm htable)).trans hrows, hfind⟩
  cases call with
  | build m itemId stat c version status result =>
    refine ⟨_, builds_run_build hrows m itemId stat c version status result, ?_⟩
    exact (Transaction.find?_withBuild_of_ne hcall m status result rows).trans hfind
  | spoil m id error =>
    refine ⟨_, builds_run_spoil hrows m id error, ?_⟩
    have hsame : ∀ row, decide ((Transaction.failedRow m error row).key = key) =
        decide (row.key = key) := fun _ => rfl
    have hid : ¬ (row.id == id) = true := fun hid => hcall (beq_iff_eq.mp hid).symm
    rw [find?_updateRows hsame, hfind, Option.map_some, if_neg hid]
  | elsewhere _ ht _ _ =>
    obtain rfl := htable
    exact absurd (by decide) ht
  | _ => cases htable

theorem HoldsBuild.after (h : s.HoldsBuild key row) {calls : List StoreCall}
    (hcalls : ∀ call ∈ calls, ¬ call.WritesBuild key row.id) :
    (StoreCall.after calls s).HoldsBuild key row :=
  StoreCall.after_induction (P := fun s => s.HoldsBuild key row) h fun call hcall _ hs =>
    hs.run (hcalls call hcall)

/-- A row that is held and decodes is found. -/
theorem HoldsBuild.findBuild {itemId version : String} {stat : Stat} {b : BuildRecord}
    (h : s.HoldsBuild (.of itemId stat c version) row) (hbuild : row.build = .ok b) :
    s.findBuild itemId stat c version = .ok (some b) := by
  obtain ⟨rows, hrows, hfind⟩ := h
  rw [findBuild_eq hrows, hfind]
  simp only [hbuild]
  rfl

/-- What is stored for a request after it was written. -/
theorem build_buildFor {itemId version : String} {stat : Stat} {result : Option BuildResult}
    (hvalid : c.validate = .ok ()) (hfit : ∀ r, result = some r → r.sums.Fit)
    (hfor : ∀ row ∈ rows, row.key = .of itemId stat c version →
      Column.json 4 Constraints.ofJson? row.constraints = .ok c)
    (m : Moment) (status : BuildStatus) :
    ∃ b, (Transaction.buildFor m itemId stat c version status result rows).build = .ok b ∧
      b.status = status ∧ b.result = result ∧ b.constraints = c := by
  obtain ⟨hstat, hconstraints, hstatus, hresult⟩ :
      (Transaction.buildFor m itemId stat c version status result rows).stat = stat.name ∧
      Column.json 4 Constraints.ofJson?
        (Transaction.buildFor m itemId stat c version status result rows).constraints = .ok c ∧
      (Transaction.buildFor m itemId stat c version status result rows).status = status.keyword ∧
      (Transaction.buildFor m itemId stat c version status result rows).result =
        result.map fun r => r.toJson.print := by
    rw [Transaction.buildFor]
    cases hold : rows.find? fun row => decide (row.key = .of itemId stat c version) with
    | none => exact ⟨rfl, Column.json_print 4 (Constraints.ofJson?_toJson hvalid), rfl, rfl⟩
    | some row =>
      have hsought := List.find?_some hold
      have hkey := of_decide_eq_true hsought
      exact ⟨congrArg BuildKey.stat hkey, hfor row (List.mem_of_find?_eq_some hold) hkey, rfl, rfl⟩
  exact ⟨_, BuildRow.build_eq hstat hconstraints hstatus hresult hfit, rfl, rfl, rfl⟩

/-- A build that is completed is held, for its constraints and with its result. -/
theorem holdsBuild_complete {version : String} {r : BuildResult} (hvalid : c.validate = .ok ())
    (hfit : r.sums.Fit) (hfor : s.BuildsFor (.of r.itemId r.stat c version) c) (m : Moment) :
    ∃ s' row b, (Transaction.upsertCompleted m c version r).call s = (.ok row.id, s') ∧
      s'.HoldsBuild (.of r.itemId r.stat c version) row ∧ row.build = .ok b ∧
      b.status = .completed ∧ b.result = some r ∧ b.constraints = c := by
  obtain ⟨rows, hrows, hfor⟩ := hfor
  have hfit : ∀ r', some r = some r' → r'.sums.Fit := fun r' hr' => Option.some.inj hr' ▸ hfit
  obtain ⟨b, hbuild, hfields⟩ := build_buildFor hvalid hfit hfor m .completed
  have hrun := Transaction.upsertBuild_eq hrows m r.itemId r.stat c version .completed (some r)
  exact ⟨_, _, b, Transaction.call_ok hrun, ⟨_, rfl, Transaction.find?_withBuild _ _ _ _ _ _ _ _⟩,
    hbuild, hfields⟩

end Store

/-! ### Isolated solutions -/

/-- The call writes or forgets the isolated solution of an item under some levels. -/
def StoreCall.WritesIsolated (itemId : String) (stat : Stat) (levels : TraderLevels)
    (version : String) : StoreCall → Prop
  | .setIsolated levels' version' e =>
    e.itemId = itemId ∧ e.stat = stat ∧ levels'.key = levels.key ∧ version' = version
  | .clearIsolated => True
  | .purgeIsolated version' => version' ≠ version
  | _ => False

namespace Transaction

variable {s : Store} {rows : List IsolatedRow}

/-- Forgetting the isolated solutions for other versions leaves those for the version. -/
theorem isolated?_purgeIsolated (h : s.isolated = some rows) (version : String) :
    ∃ n s', (purgeIsolated version).call s = (.ok n, s') ∧
      ∀ id stat levels,
        s'.isolated? id stat levels version = s.isolated? id stat levels version := by
  have hrows : s.rows? .isolated = some rows := h
  let kept := rows.filter fun row => row.version == version
  have hcall : purgeIsolated version s =
      .ok ((rows.filter fun row => row.version != version).length,
        s.put .isolated (some kept)) := by
    rw [purgeIsolated, rows_bind hrows]
    rfl
  refine ⟨_, _, call_ok hcall, fun id stat levels => ?_⟩
  have hkept : kept.find? (fun row => row.Matches id stat levels version) =
      rows.find? fun row => row.Matches id stat levels version :=
    find?_filter_of_imp fun _ hrow => beq_iff_eq.mpr (of_decide_eq_true hrow).2.2.2
  rw [isolated?_eq (s := s.put .isolated (some kept)) rfl, isolated?_eq h, hkept]

end Transaction

namespace Store

variable {s s' : Store} {itemId version : String} {stat : Stat} {levels : TraderLevels}

/-- A look-up of an isolated solution reads the isolated solutions only. -/
theorem isolated?_congr (h : s'.rows? .isolated = s.rows? .isolated) :
    s'.isolated? itemId stat levels version = s.isolated? itemId stat levels version := by
  rw [isolated?, isolated?, rows, rows, h]

/-- A look-up succeeds only if the table is there. -/
theorem exists_isolated {found : Option CacheEntry}
    (h : s.isolated? itemId stat levels version = .ok found) : ∃ rows, s.isolated = some rows := by
  cases hrows : s.isolated with
  | some rows => exact ⟨rows, rfl⟩
  | none =>
    have hmissing : s.rows .isolated = .error (.missingTable Table.isolated.name) := by
      rw [rows, show s.rows? .isolated = none from hrows]
    rw [isolated?, hmissing] at h
    cases h

/-- What is kept for an item stays, unless it is written or forgotten. -/
theorem isolated?_run {call : StoreCall} {e : CacheEntry}
    (h : s.isolated? itemId stat levels version = .ok (some e))
    (hcall : ¬ call.WritesIsolated itemId stat levels version) :
    (call.run s).isolated? itemId stat levels version = .ok (some e) := by
  obtain ⟨rows, hrows⟩ := exists_isolated h
  by_cases htable : call.table = .isolated
  swap
  · exact (isolated?_congr (call.rows?_run s (Ne.symm htable))).trans h
  cases call with
  | setIsolated levels' version' entry =>
    obtain ⟨s', rows', hrun, -, hread⟩ :=
      Transaction.isolated?_setIsolated hrows levels' version' entry
    rw [StoreCall.run, hrun, hread]
    exact (if_neg hcall).trans h
  | clearIsolated => exact absurd trivial hcall
  | purgeIsolated version' =>
    obtain rfl := not_not.mp hcall
    obtain ⟨n, s', hrun, hread⟩ := Transaction.isolated?_purgeIsolated hrows version'
    rw [StoreCall.run, hrun, hread, h]
  | elsewhere _ ht _ _ =>
    obtain rfl := htable
    exact absurd (by decide) ht
  | _ => cases htable

theorem isolated?_after {calls : List StoreCall} {e : CacheEntry}
    (h : s.isolated? itemId stat levels version = .ok (some e))
    (hcalls : ∀ call ∈ calls, ¬ call.WritesIsolated itemId stat levels version) :
    (StoreCall.after calls s).isolated? itemId stat levels version = .ok (some e) :=
  StoreCall.after_induction (P := fun s => s.isolated? itemId stat levels version = .ok (some e)) h
    fun call hcall _ hs => isolated?_run hs (hcalls call hcall)

end Store

/-! ### Kept results -/

namespace StoreCall

/-- The call keeps a result for the same request that reaches as deep, or forgets what is kept for
it. -/
def SupersedesKept (e : SubtreeEntry) : StoreCall → Prop
  | .keep e' =>
    e.row.Matches e'.itemId e'.stat e'.constraints e'.version ∧ e.depth ≤ e'.depth
  | .purgeSubtrees version => version ≠ e.version
  | _ => False

end StoreCall

namespace Store

/-- The row of the entry is the one that is found for its request. -/
def HoldsKept (s : Store) (e : SubtreeEntry) : Prop :=
  ∃ rows, s.subtrees = some rows ∧
    rows.find? (fun row => row.Matches e.itemId e.stat e.constraints e.version) = some e.row

variable {s : Store} {e : SubtreeEntry} {call : StoreCall}

/-- Requests with the same key are looked up alike. -/
theorem matches_eq {e e' : SubtreeEntry}
    (h : e.row.Matches e'.itemId e'.stat e'.constraints e'.version) :
    (fun row : SubtreeRow => decide (row.Matches e.itemId e.stat e.constraints e.version)) =
      fun row => decide (row.Matches e'.itemId e'.stat e'.constraints e'.version) := by
  obtain ⟨hitem, hstat, hconstraints, hversion⟩ :
    e.itemId = e'.itemId ∧ e.stat = e'.stat ∧ e.constraints.key = e'.constraints.key ∧
      e.version = e'.version := h
  funext row
  refine decide_eq_decide.mpr ?_
  unfold SubtreeRow.Matches
  rw [hitem, hstat, hconstraints, hversion]

/-- A kept result stays when one is kept that is for another request or reaches less deep. -/
theorem HoldsKept.keep (h : s.HoldsKept e) {e' : SubtreeEntry}
    (hcall : ¬ (StoreCall.keep e').SupersedesKept e) : ((StoreCall.keep e').run s).HoldsKept e := by
  obtain ⟨rows, hrows, hfind⟩ := h
  have hrun : (StoreCall.keep e').run s =
      s.put .subtrees (some (Transaction.withSubtree e' rows)) := by
    rw [StoreCall.run, Transaction.call_ok (Transaction.upsertSubtree_eq hrows e')]
  rw [hrun]
  refine ⟨_, rfl, ?_⟩
  by_cases hsame : e.row.Matches e'.itemId e'.stat e'.constraints e'.version
  · -- The row of the request is written, but only in favour of what reaches as deep.
    have hdepth : ¬ (e.row.depth ≤ e'.depth) := fun hle => hcall ⟨hsame, Int.ofNat_le.mp hle⟩
    rw [matches_eq hsame] at hfind ⊢
    rw [Transaction.find?_withSubtree, hfind, Option.map_some, Option.getD_some,
      Transaction.deepened, if_neg hdepth]
  · rw [Transaction.find?_withSubtree_of_disjoint e' ?_ rows, hfind]
    intro row hrow
    refine decide_eq_false fun hmatches => hsame ?_
    exact ⟨hmatches.1.symm.trans hrow.1, hmatches.2.1.symm.trans hrow.2.1,
      hmatches.2.2.1.symm.trans hrow.2.2.1, hmatches.2.2.2.symm.trans hrow.2.2.2⟩

/-- A kept result stays when those for other versions are forgotten. -/
theorem HoldsKept.purge (h : s.HoldsKept e) :
    ((StoreCall.purgeSubtrees e.version).run s).HoldsKept e := by
  obtain ⟨rows, hrows, hfind⟩ := h
  have hrows' : s.rows? .subtrees = some rows := hrows
  let kept := rows.filter fun row => row.version == e.version
  have hpurge : Transaction.purgeSubtrees e.version s =
      .ok ((rows.filter fun row => row.version != e.version).length,
        s.put .subtrees (some kept)) := by
    rw [Transaction.purgeSubtrees, Transaction.rows_bind hrows']
    rfl
  rw [StoreCall.run, Transaction.call_ok hpurge]
  refine ⟨kept, rfl, ?_⟩
  rw [find?_filter_of_imp fun _ hrow => beq_iff_eq.mpr (of_decide_eq_true hrow).2.2.2, hfind]

/-- A kept result stays, unless it is superseded. -/
theorem HoldsKept.run (h : s.HoldsKept e) (hcall : ¬ call.SupersedesKept e) :
    (call.run s).HoldsKept e := by
  by_cases htable : call.table = .subtrees
  swap
  · obtain ⟨rows, hrows, hfind⟩ := h
    exact ⟨rows, (call.rows?_run s (Ne.symm htable)).trans hrows, hfind⟩
  cases call with
  | keep e' => exact h.keep hcall
  | purgeSubtrees version =>
    obtain rfl := not_not.mp hcall
    exact h.purge
  | elsewhere _ ht _ _ =>
    obtain rfl := htable
    exact absurd (by decide) ht
  | _ => cases htable

theorem HoldsKept.after (h : s.HoldsKept e) {calls : List StoreCall}
    (hcalls : ∀ call ∈ calls, ¬ call.SupersedesKept e) : (StoreCall.after calls s).HoldsKept e :=
  StoreCall.after_induction (P := fun s => s.HoldsKept e) h fun call hcall _ hs =>
    hs.run (hcalls call hcall)

/-- What is held is read, for every depth that it reaches. -/
theorem HoldsKept.subtree? (h : s.HoldsKept e) (hdepth : e.depth ≤ maxDepth)
    (hfit : e.result.sums.Fit) {depth : Nat} (hle : depth ≤ e.depth) :
    s.subtree? e.itemId e.stat e.constraints e.version depth = .ok (some e) := by
  obtain ⟨rows, hrows, hfind⟩ := h
  have hboth : rows.find? (fun row =>
      decide (row.Matches e.itemId e.stat e.constraints e.version ∧ (depth : Int) ≤ row.depth)) =
        some e.row := by
    simp only [Bool.decide_and]
    exact Transaction.find?_and hfind (decide_eq_true (Int.ofNat_le.mpr hle))
  rw [subtree?_eq hrows, hboth]
  simp only [SubtreeEntry.content_row hdepth hfit]
  rfl

/-- A result that is accepted is held. -/
theorem holdsKept_keep {rows : List SubtreeRow} (hrows : s.subtrees = some rows)
    (haccepted : s.subtree? e.itemId e.stat e.constraints e.version (e.depth + 1) = .ok none) :
    ∃ s', (Transaction.upsertSubtree e).call s = (.ok (), s') ∧ s'.HoldsKept e := by
  refine ⟨_, Transaction.call_ok (Transaction.upsertSubtree_eq hrows e), _, rfl, ?_⟩
  -- It was accepted because nothing deeper is kept, so it replaces what is there.
  have hshallow : ∀ row ∈ rows, row.Matches e.itemId e.stat e.constraints e.version →
      row.depth ≤ e.depth := by
    intro row hrow hmatches
    by_contra hdeep
    rw [subtree?_eq hrows] at haccepted
    split at haccepted
    · next hnone =>
      have hreach : ((e.depth + 1 : Nat) : Int) ≤ row.depth := by omega
      exact absurd (decide_eq_true ⟨hmatches, hreach⟩) (List.find?_eq_none.mp hnone row hrow)
    · next found hfound =>
      cases hcontent : found.content with
      | error e =>
        rw [hcontent] at haccepted
        cases haccepted
      | ok content =>
        rw [hcontent] at haccepted
        cases haccepted
  rw [Transaction.find?_withSubtree]
  cases hold : rows.find? fun row =>
      decide (row.Matches e.itemId e.stat e.constraints e.version) with
  | none => rfl
  | some old =>
    have hsought := List.find?_some hold
    have hmatches := of_decide_eq_true hsought
    have hle := hshallow old (List.mem_of_find?_eq_some hold) hmatches
    obtain ⟨itemId, stat, constraintsKey, version, depth, result⟩ := old
    obtain ⟨rfl, rfl, rfl, rfl⟩ := hmatches
    rw [Option.map_some, Option.getD_some, Transaction.deepened, if_pos hle]
    rfl

/-! ### All four -/

open StoreCall (after)

/-- The tables that are written and read back exist, and the ids of jobs are keys. -/
structure HasTables (s : Store) : Prop where
  jobs : s.JobTable s.jobRows
  builds : s.builds.isSome
  isolated : s.isolated.isSome
  subtrees : s.subtrees.isSome

/-- What is written into a store is what is read back. -/
structure ReadsBack (s : Store) : Prop where
  /-- A job that is entered is found by its id, and claimed when it is first in line, with what was
  asked for, whatever calls are made in between. -/
  job : ∀ (m : Moment) (itemId : String) (stat : Stat) (c : Constraints) (priority : Int),
    c.validate = .ok () → Text.isAllBlank itemId = false → m.fresh ∉ s.jobRows.map JobRow.id →
    ∃ s', (Transaction.enqueue m itemId stat c priority).call s = (.ok m.fresh, s') ∧
      ∀ later, (∃ job, (after later s').job? m.fresh = .ok (some job) ∧
          (Transaction.entered m itemId stat c priority).SameRequest job) ∧
        (∀ m' (job : Job),
          ((QueueCall.claim m').run (after later s')).1 = .ok (.claimed (some job)) →
          job.id = m.fresh → (Transaction.entered m itemId stat c priority).SameRequest job) ∧
        ∀ m' (i : Nat) (row : JobRow), JobRow.FirstInLine (after later s').jobRows i row →
          row.id = m.fresh →
          ∃ job, ((QueueCall.claim m').run (after later s')).1 = .ok (.claimed (some job)) ∧
            (Transaction.entered m itemId stat c priority).SameRequest job
  /-- A build that is completed is found, and found completed, with its result and constraints, if
  no other constraints wrote its row before, and as long as it is not written or failed again. -/
  build : ∀ (before : List StoreCall) (m : Moment) (c : Constraints) (version : String)
    (r : BuildResult), c.validate = .ok () → r.sums.Fit →
    (∀ row ∈ s.builds.getD [], row.key = .of r.itemId r.stat c version →
      Column.json 4 Constraints.ofJson? row.constraints = .ok c) →
    (∀ call ∈ before, ¬ call.BuildsForOther (.of r.itemId r.stat c version) c) →
    ∃ s' id b, (Transaction.upsertCompleted m c version r).call (after before s) = (.ok id, s') ∧
      b.result = some r ∧ b.constraints = c ∧
      ∀ later, (∀ call ∈ later, ¬ call.WritesBuild (.of r.itemId r.stat c version) id) →
        (after later s').findBuild r.itemId r.stat c version = .ok (some b) ∧
        (after later s').completedBuild r.itemId r.stat c version = .ok (some b)
  /-- An isolated solution that is kept in the table is what a cache of its version answers, until
  it is written or forgotten. -/
  isolated : ∀ (cache : Cache) (c : Constraints) (e : CacheEntry), cache.entries = none →
    ∃ s', Cache.set c e (s, cache) = (.ok (), s', cache.countWrite) ∧
      ∀ later, (∀ call ∈ later, ¬ call.WritesIsolated e.itemId e.stat c.levels cache.version) →
        ∀ (other : Cache) (c' : Constraints), other.entries = none →
          other.version = cache.version → c'.levels = c.levels →
          (Cache.get e.itemId e.stat c' (after later s', other)).1 = .ok (some e)
  /-- A result that is accepted, since none that reaches deeper is kept, is what is read for every
  depth that it reaches, until one is kept that reaches as deep, or it is forgotten. -/
  kept : ∀ e : SubtreeEntry, e.depth ≤ maxDepth → e.result.sums.Fit →
    s.subtree? e.itemId e.stat e.constraints e.version (e.depth + 1) = .ok none →
    ∃ s', (Transaction.upsertSubtree e).call s = (.ok (), s') ∧
      ∀ later, (∀ call ∈ later, ¬ call.SupersedesKept e) → ∀ depth ≤ e.depth,
        (after later s').subtree? e.itemId e.stat e.constraints e.version depth = .ok (some e)

/-- **What is written is read back**, from every store that has the tables. -/
theorem readsBack (h : s.HasTables) : s.ReadsBack where
  job m itemId stat c priority hvalid hitem hid := by
    obtain ⟨s', hcall, hheld⟩ := holdsJob_enqueue h.jobs hvalid hitem hid stat priority
    refine ⟨s', hcall, fun later => ?_⟩
    have hlater := hheld.advance (StoreCall.jobsAdvance_after hheld.table later)
    exact ⟨hlater.job?, fun m' job hrun hid => hlater.of_claimed hrun hid,
      fun m' i row hfirst hid => hlater.claimed m' hfirst hid⟩
  build before m c version r hvalid hfit hstored hbefore := by
    obtain ⟨rows, hrows⟩ := Option.isSome_iff_exists.mp h.builds
    rw [hrows, Option.getD_some] at hstored
    have hfor := BuildsFor.after ⟨rows, hrows, hstored⟩ hvalid hbefore
    obtain ⟨s', row, b, hcall, hheld, hbuild, hstatus, hresult, hconstraints⟩ :=
      holdsBuild_complete hvalid hfit hfor m
    refine ⟨s', row.id, b, hcall, hresult, hconstraints, fun later hlater => ?_⟩
    have hfound := (hheld.after hlater).findBuild hbuild
    refine ⟨hfound, ?_⟩
    rw [completedBuild_eq hfound, Option.filter_some, if_pos (decide_eq_true hstatus)]
  isolated cache c e hcache := by
    obtain ⟨rows, hrows⟩ := Option.isSome_iff_exists.mp h.isolated
    obtain ⟨s', rows', hcall, -, hread⟩ :=
      Transaction.isolated?_setIsolated hrows c.levels cache.version e
    refine ⟨s', Cache.set_table hcache hcall, ?_⟩
    intro later hlater other c' hother hversion hlevels
    have hset : s'.isolated? e.itemId e.stat c.levels cache.version = .ok (some e) := by
      rw [hread, if_pos ⟨rfl, rfl, rfl, rfl⟩]
    have hfound := isolated?_after hset hlater
    rw [← hversion, ← hlevels] at hfound
    rw [Cache.get_table hother hfound]
  kept e hdepth hfit haccepted := by
    obtain ⟨rows, hrows⟩ := Option.isSome_iff_exists.mp h.subtrees
    obtain ⟨s', hcall, hheld⟩ := holdsKept_keep hrows haccepted
    exact ⟨s', hcall, fun later hlater depth hle => (hheld.after hlater).subtree? hdepth hfit hle⟩

/-- A buyer with the same level everywhere. -/
def sampleBuyer : Constraints := .ofLevels (.uniform 4)

/-- What an evaluation of the weapon `w` came to. -/
def sampleOutcome (recoil : Int) : BuildResult := ⟨"w", "w", .recoil, ⟨recoil, 2⟩, []⟩

/-- What is kept of an evaluation. -/
def sampleKept (depth : Nat) (recoil : Int) : SubtreeEntry :=
  ⟨"w", .recoil, sampleBuyer, "1", depth, sampleOutcome recoil⟩

/-- A store in which the same request was entered before, its build failed, and a worse solution is
kept for it, from a smaller depth. -/
def workedOn : Store :=
  { fresh with
    jobs := some [(Transaction.entered ⟨"2024-01-01", "a"⟩ "w" .recoil sampleBuyer 0).row]
    builds := some
      [(Transaction.begun ⟨"2024-01-01", "x"⟩ "w" .recoil sampleBuyer "1" .failed none).row]
    isolated := some [⟨"w", .recoil, sampleBuyer.levels.key, "1", ⟨5, 2⟩, "[]"⟩]
    subtrees := some [(sampleKept 2 5).row] }

/-- What is written over rows that are there already is read back in their place: the build has the
id of the one that failed, and its new result. -/
theorem readsBack_sample : workedOn.HasTables ∧ workedOn.ReadsBack ∧
    (∃ s' job, (Transaction.enqueue ⟨"2024-01-02", "b"⟩ "w" .recoil sampleBuyer 7).call workedOn =
        (.ok "b", s') ∧ s'.job? "b" = .ok (some job) ∧ job.itemId = "w" ∧ job.priority = 7) ∧
    (∃ s' b, (Transaction.upsertCompleted ⟨"2024-01-02", "y"⟩ sampleBuyer "1"
        (sampleOutcome 3)).call workedOn = (.ok "x", s') ∧
      b.result = some (sampleOutcome 3) ∧
      s'.completedBuild "w" .recoil sampleBuyer "1" = .ok (some b)) ∧
    (∃ s', Cache.set sampleBuyer (.ofResult (sampleOutcome 3)) (workedOn, .create .table "1") =
        (.ok (), s', (Cache.create .table "1").countWrite) ∧
      (Cache.get "w" .recoil sampleBuyer (s', .create .table "1")).1 =
        .ok (some (.ofResult (sampleOutcome 3)))) ∧
    ∃ s', (Transaction.upsertSubtree (sampleKept 3 3)).call workedOn = (.ok (), s') ∧
      s'.subtree? "w" .recoil sampleBuyer "1" 2 = .ok (some (sampleKept 3 3)) := by
  have h : workedOn.HasTables := ⟨⟨rfl, List.nodup_singleton _⟩, rfl, rfl, rfl⟩
  have hreads : workedOn.ReadsBack := readsBack h
  have hvalid : sampleBuyer.validate = .ok () := rfl
  have hfit : (sampleOutcome 3).sums.Fit := ⟨⟨by decide, by decide⟩, by decide, by decide⟩
  refine ⟨h, hreads, ?_, ?_, ?_, ?_⟩
  · obtain ⟨s', hcall, hlater⟩ := hreads.job ⟨"2024-01-02", "b"⟩ "w" .recoil sampleBuyer 7 hvalid
      rfl (by decide)
    obtain ⟨job, hjob, hsame⟩ := (hlater []).1
    exact ⟨s', job, hcall, hjob, hsame.itemId, hsame.priority⟩
  · have hstored : ∀ row ∈ workedOn.builds.getD [], row.key = .of "w" .recoil sampleBuyer "1" →
        Column.json 4 Constraints.ofJson? row.constraints = .ok sampleBuyer := by
      intro row hrow _
      obtain rfl := List.mem_singleton.mp hrow
      exact Column.json_print 4 (Constraints.ofJson?_toJson hvalid)
    obtain ⟨s', id, b, hcall, hresult, -, hlater⟩ := hreads.build [] ⟨"2024-01-02", "y"⟩
      sampleBuyer "1" (sampleOutcome 3) hvalid hfit hstored nofun
    have hid : ((Transaction.upsertCompleted ⟨"2024-01-02", "y"⟩ sampleBuyer "1"
        (sampleOutcome 3)).call workedOn).1 = .ok "x" := by rfl
    obtain rfl : id = "x" := Except.ok.inj ((congrArg Prod.fst hcall).symm.trans hid)
    exact ⟨s', b, hcall, hresult, (hlater [] nofun).2⟩
  · obtain ⟨s', hcall, hlater⟩ := hreads.isolated (.create .table "1") sampleBuyer
      (.ofResult (sampleOutcome 3)) rfl
    exact ⟨s', hcall, hlater [] nofun (.create .table "1") sampleBuyer rfl rfl rfl⟩
  · obtain ⟨s', hcall, hlater⟩ := hreads.kept (sampleKept 3 3) (by decide) hfit (by rfl)
    exact ⟨s', hcall, hlater [] nofun 2 (by decide)⟩

end Store

end Gunsmith
