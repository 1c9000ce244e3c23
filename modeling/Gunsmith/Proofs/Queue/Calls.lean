/-
  Calls on the queue, and runs of them.

  The queue is written by three kinds of calls (`QueueCall`): a job is entered, the next job
  is claimed, or a job is moved on by name.  A call fails, or it has one of four effects on
  the rows (`QueueCall.Effect`): a waiting row is added at the end, nothing happens because
  nobody waits, the first in line is moved on, or the row with the given id is.

  So the rows that are there stay at their positions and only ever advance, along a run as
  in one call (`Store.JobTable.advances_after`), and the rows that a run adds are those that
  it entered, in order (`Store.JobTable.ids_after`).
-/
import Gunsmith.Proofs.Queue.Rows

namespace Gunsmith

/-! ### Calls -/

/-- A call that writes the queue, with all that it is given. -/
inductive QueueCall where
  | enqueue (m : Moment) (itemId : String) (stat : Stat) (c : Constraints) (priority : Int)
  | claim (m : Moment)
  | update (m : Moment) (id : String) (u : JobUpdate)

/-- What a call answers. -/
inductive QueueAnswer where
  | entered (id : String)
  | claimed (job : Option Job)
  | moved

/-- The id of the job that was entered, if the answer is that one was. -/
def QueueAnswer.entered? : Except StoreError QueueAnswer → Option String
  | .ok (.entered id) => some id
  | _ => none

namespace QueueCall

/-- Makes a call on the store, and passes on what it answers. -/
def answering {α : Type} (action : Transaction α) (f : α → QueueAnswer) (s : Store) :
    Except StoreError QueueAnswer × Store :=
  ((action.call s).1.map f, (action.call s).2)

/-- Makes the call. -/
def run (call : QueueCall) (s : Store) : Except StoreError QueueAnswer × Store :=
  match call with
  | .enqueue m itemId stat c priority =>
    answering (Transaction.enqueue m itemId stat c priority) .entered s
  | .claim m => answering (Transaction.claim m) .claimed s
  | .update m id u => answering (u.action m id) (fun _ => .moved) s

/-- What a call answers and does to the rows. -/
inductive Effect (rows : List JobRow) :
    QueueCall → Except StoreError QueueAnswer → List JobRow → Prop
  | failed (call : QueueCall) (e : StoreError) : Effect rows call (.error e) rows
  | entered {m : Moment} {itemId : String} {stat : Stat} {c : Constraints} {priority : Int}
    (hid : m.fresh ∉ rows.map JobRow.id) :
    Effect rows (.enqueue m itemId stat c priority) (.ok (.entered m.fresh))
      (rows ++ [(Transaction.entered m itemId stat c priority).row])
  | idle {m : Moment} (hidle : ∀ row ∈ rows, ¬ row.Waits) :
    Effect rows (.claim m) (.ok (.claimed none)) rows
  | claimed {m : Moment} {i : Nat} {row : JobRow} {job : Job}
    (hfirst : JobRow.FirstInLine rows i row) (hjob : row.Decodes job) :
    Effect rows (.claim m)
      (.ok (.claimed (some { job with status := .processing, startedAt := some m.now })))
      (rows.set i (JobUpdate.process.apply m.now row))
  | moved {m : Moment} {u : JobUpdate} {i : Nat} {row : JobRow} (hrow : rows[i]? = some row)
    (hsource : row.status ∈ u.sources.map JobStatus.keyword) :
    Effect rows (.update m row.id u) (.ok .moved) (rows.set i (u.apply m.now row))

variable {s : Store} {rows rows' : List JobRow} {call : QueueCall}
  {answer : Except StoreError QueueAnswer} {i : Nat} {row row' : JobRow}

theorem answering_ok {α : Type} {action : Transaction α} {f : α → QueueAnswer} {a : α} {s' : Store}
    (h : action s = .ok (a, s')) : answering action f s = (.ok (f a), s') := by
  rw [answering, Transaction.call_ok h]
  rfl

theorem answering_error {α : Type} {action : Transaction α} {f : α → QueueAnswer} {e : StoreError}
    (h : action s = .error e) : answering action f s = (.error e, s) := by
  rw [answering, Transaction.call_error h]
  rfl

theorem answering_unchanged {α : Type} {action : Transaction α} {f : α → QueueAnswer}
    {e : StoreError} (h : (answering action f s).1 = .error e) : (answering action f s).2 = s := by
  cases hrun : action s with
  | error e' => rw [answering_error hrun]
  | ok r =>
    rw [answering_ok (show action s = .ok (r.1, r.2) from hrun)] at h
    exact absurd h nofun

/-- A call that fails changes nothing. -/
theorem run_of_error {e : StoreError} (h : (call.run s).1 = .error e) : (call.run s).2 = s := by
  cases call with
  | enqueue => exact answering_unchanged h
  | claim => exact answering_unchanged h
  | update => exact answering_unchanged h

/-- There is no such job to move on. -/
theorem run_update_unknown (h : s.jobs = some rows) {id : String} (hid : ∀ row ∈ rows, row.id ≠ id)
    (m : Moment) (u : JobUpdate) :
    (update m id u).run s = (.error (.notFound Table.jobs.name id), s) :=
  answering_error (u.action_eq m id ▸ moveJob_unknown h hid)

/-- The job is not in a state from which it is moved on. -/
theorem run_update_refused (h : s.JobTable rows) (hrow : row ∈ rows) (m : Moment) {u : JobUpdate}
    (hsource : row.status ∉ u.sources.map JobStatus.keyword) :
    (update m row.id u).run s =
      (.error (.badTransition row.id row.status u.target.keyword), s) :=
  answering_error (u.action_eq m row.id ▸ moveJob_refused h hrow hsource)

/-- The job is moved on. -/
theorem run_update_moved (h : s.JobTable rows) (hrow : rows[i]? = some row) (m : Moment)
    {u : JobUpdate} (hsource : row.status ∈ u.sources.map JobStatus.keyword) :
    (update m row.id u).run s =
      (.ok .moved, s.put .jobs (some (rows.set i (u.apply m.now row)))) :=
  answering_ok (u.action_eq m row.id ▸ moveJob_moved h hrow hsource)

/-- **Every call** on a table of jobs has one of the effects. -/
theorem run_effect (h : s.JobTable rows) (call : QueueCall) :
    ∃ rows', Effect rows call (call.run s).1 rows' ∧ (call.run s).2.JobTable rows' := by
  cases call with
  | enqueue m itemId stat c priority =>
    rcases Transaction.enqueue_eq h.jobs m itemId stat c priority with ⟨e, he⟩ | ⟨-, hid, hok⟩
    · rw [run, answering_error he]
      exact ⟨rows, Effect.failed _ e, h⟩
    · rw [run, answering_ok hok]
      exact ⟨_, Effect.entered hid, h.append hid⟩
  | claim m =>
    rcases JobRow.first?_waiting rows with ⟨-, hidle⟩ | ⟨i, row, -, hfirst⟩
    · rw [run, answering_ok (claim_idle h.jobs hidle m)]
      exact ⟨rows, Effect.idle hidle, h⟩
    · cases hjob : row.job with
      | error e =>
        rw [run, answering_error (claim_unreadable h.jobs hfirst hjob m)]
        exact ⟨rows, Effect.failed _ e, h⟩
      | ok job =>
        have hjob := JobRow.job_eq_ok.mp hjob
        rw [run, answering_ok (claim_readable h hfirst hjob m)]
        exact ⟨_, Effect.claimed hfirst hjob, h.set hfirst.stands rfl⟩
  | update m id u =>
    by_cases hid : ∃ row ∈ rows, row.id = id
    · obtain ⟨row, hrow, rfl⟩ := hid
      by_cases hsource : row.status ∈ u.sources.map JobStatus.keyword
      · obtain ⟨i, hi⟩ := List.mem_iff_getElem?.mp hrow
        rw [run_update_moved h hi m hsource]
        exact ⟨_, Effect.moved hi hsource, h.set hi (u.id_apply m.now row)⟩
      · rw [run_update_refused h hrow m hsource]
        exact ⟨rows, Effect.failed _ _, h⟩
    · rw [run_update_unknown h.jobs (fun row hrow heq => hid ⟨row, hrow, heq⟩) m u]
      exact ⟨rows, Effect.failed _ _, h⟩

/-! ### What a call does to the rows -/

/-- Where a row is moved on, the other rows stay. -/
theorem advances_set {u : JobUpdate} {now : String} (hrow : rows[i]? = some row)
    (hsource : row.status ∈ u.sources.map JobStatus.keyword) {j : Nat} {other : JobRow}
    (hother : rows[j]? = some other) :
    ∃ other', (rows.set i (u.apply now row))[j]? = some other' ∧ other.Advances other' := by
  by_cases hij : i = j
  · subst hij
    obtain rfl := Option.some.inj (hrow.symm.trans hother)
    have hi := (List.getElem?_eq_some_iff.mp hrow).1
    exact ⟨u.apply now row, List.getElem?_set_self hi, JobRow.Advances.move u now hsource⟩
  · refine ⟨other, ?_, JobRow.Advances.stay⟩
    rw [List.getElem?_set_ne hij]
    exact hother

/-- The rows that are there stay or advance. -/
theorem Effect.advances (h : Effect rows call answer rows') (hrow : rows[i]? = some row) :
    ∃ row', rows'[i]? = some row' ∧ row.Advances row' := by
  cases h with
  | failed _ _ => exact ⟨row, hrow, JobRow.Advances.stay⟩
  | entered _ =>
    refine ⟨row, ?_, JobRow.Advances.stay⟩
    rw [List.getElem?_append_left (List.getElem?_eq_some_iff.mp hrow).1]
    exact hrow
  | idle _ => exact ⟨row, hrow, JobRow.Advances.stay⟩
  | claimed hfirst _ =>
    exact advances_set (u := .process) hfirst.stands (List.mem_singleton.mpr hfirst.waits) hrow
  | moved hi hsource => exact advances_set hi hsource hrow

/-- A row that was not there is that of a job that was entered. -/
theorem Effect.entered_of_none (h : Effect rows call answer rows') (hnone : rows[i]? = none)
    (hrow : rows'[i]? = some row) :
    ∃ m itemId stat c priority, row = (Transaction.entered m itemId stat c priority).row := by
  have hset : ∀ (j : Nat) (other : JobRow), (rows.set j other)[i]? = none := by
    intro j other
    rw [List.getElem?_eq_none_iff, List.length_set]
    exact List.getElem?_eq_none_iff.mp hnone
  cases h with
  | failed _ _ => exact absurd (hnone.symm.trans hrow) nofun
  | entered _ =>
    rw [List.getElem?_append_right (List.getElem?_eq_none_iff.mp hnone)] at hrow
    exact ⟨_, _, _, _, _, List.mem_singleton.mp (List.mem_of_getElem? hrow)⟩
  | idle _ => exact absurd (hnone.symm.trans hrow) nofun
  | claimed _ _ => exact absurd ((hset _ _).symm.trans hrow) nofun
  | moved _ _ => exact absurd ((hset _ _).symm.trans hrow) nofun

/-- The ids stay, and the id of a job that was entered is added. -/
theorem Effect.ids (h : Effect rows call answer rows') :
    rows'.map JobRow.id = rows.map JobRow.id ++ (QueueAnswer.entered? answer).toList := by
  cases h with
  | failed _ _ => exact (List.append_nil _).symm
  | entered _ => exact List.map_append
  | idle _ => exact (List.append_nil _).symm
  | claimed hfirst _ =>
    exact (JobRow.map_id_set hfirst.stands (JobUpdate.id_apply _ _ _)).trans
      (List.append_nil _).symm
  | moved hrow _ =>
    exact (JobRow.map_id_set hrow (JobUpdate.id_apply _ _ _)).trans (List.append_nil _).symm

/-! ### Runs of calls -/

/-- The store after some calls. -/
def after (calls : List QueueCall) (s : Store) : Store :=
  calls.foldl (fun s call => (call.run s).2) s

/-- What some calls answer. -/
def answers : List QueueCall → Store → List (Except StoreError QueueAnswer)
  | [], _ => []
  | call :: calls, s => (call.run s).1 :: answers calls (call.run s).2

/-- The ids of the jobs that some calls entered, in order. -/
def entries (calls : List QueueCall) (s : Store) : List String :=
  (answers calls s).filterMap QueueAnswer.entered?

variable {calls : List QueueCall}

@[simp]
theorem after_nil (s : Store) : after [] s = s := rfl

@[simp]
theorem after_cons (call : QueueCall) (calls : List QueueCall) (s : Store) :
    after (call :: calls) s = after calls (call.run s).2 := rfl

@[simp]
theorem after_append (calls later : List QueueCall) (s : Store) :
    after (calls ++ later) s = after later (after calls s) :=
  List.foldl_append

theorem entries_cons (call : QueueCall) (calls : List QueueCall) (s : Store) :
    entries (call :: calls) s =
      (QueueAnswer.entered? (call.run s).1).toList ++ entries calls (call.run s).2 := by
  rw [entries, answers, List.filterMap_cons]
  cases QueueAnswer.entered? (call.run s).1 <;> rfl

end QueueCall

namespace Store.JobTable

open QueueCall

variable {s : Store} {rows : List JobRow} {i : Nat} {row : JobRow}

/-- After any calls there is a table of jobs. -/
theorem after (h : s.JobTable rows) (calls : List QueueCall) :
    (QueueCall.after calls s).JobTable (QueueCall.after calls s).jobRows := by
  induction calls generalizing s rows with
  | nil =>
    rw [after_nil, h.jobRows_eq]
    exact h
  | cons call calls ih =>
    obtain ⟨rows', -, h'⟩ := run_effect h call
    exact ih h'

/-- **Rows only advance**: after any calls, what was there is at its position still. -/
theorem advances_after (h : s.JobTable rows) (hrow : rows[i]? = some row)
    (calls : List QueueCall) :
    ∃ row', (QueueCall.after calls s).jobRows[i]? = some row' ∧
      Relation.ReflTransGen JobRow.Advances row row' := by
  induction calls generalizing s rows row with
  | nil =>
    rw [after_nil, h.jobRows_eq]
    exact ⟨row, hrow, Relation.ReflTransGen.refl⟩
  | cons call calls ih =>
    obtain ⟨rows', heffect, h'⟩ := run_effect h call
    obtain ⟨row', hrow', hadvance⟩ := heffect.advances hrow
    obtain ⟨row'', hrow'', hadvances⟩ := ih h' hrow'
    exact ⟨row'', hrow'', Relation.ReflTransGen.head hadvance hadvances⟩

/-- What was there after some calls is at its position after more of them. -/
theorem advances_between (h : s.JobTable rows) {before : List QueueCall}
    (hrow : (QueueCall.after before s).jobRows[i]? = some row) (later : List QueueCall) :
    ∃ row', (QueueCall.after (before ++ later) s).jobRows[i]? = some row' ∧
      Relation.ReflTransGen JobRow.Advances row row' := by
  rw [after_append]
  exact (h.after before).advances_after hrow later

/-- **What a run adds** is what it entered, in order. -/
theorem ids_after (h : s.JobTable rows) (calls : List QueueCall) :
    (QueueCall.after calls s).jobRows.map JobRow.id = rows.map JobRow.id ++ entries calls s := by
  induction calls generalizing s rows with
  | nil =>
    rw [after_nil, h.jobRows_eq]
    exact (List.append_nil _).symm
  | cons call calls ih =>
    obtain ⟨rows', heffect, h'⟩ := run_effect h call
    rw [after_cons, ih h', heffect.ids, entries_cons, List.append_assoc]

end Store.JobTable

end Gunsmith
