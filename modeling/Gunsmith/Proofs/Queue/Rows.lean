/-
  Rows of the queue, and what the calls on it do to them.

  A job is moved on by name in one of three ways (`JobUpdate`), each of which is allowed in
  some states only and leads to one.  A row advances (`JobRow.Advances`) if it is moved on
  in one of these ways.  It stays the row of the same request then, nothing returns to
  waiting, and what has ended stays as it is.

  On a table of jobs whose ids are keys (`Store.JobTable`), moving a job on changes one row
  (`moveJob_moved`) or fails because of a reason that it names (`moveJob_unknown`,
  `moveJob_refused`).  A claim moves on the first in line (`claim_readable`), unless nobody
  waits (`claim_idle`) or the first in line does not decode (`claim_unreadable`).
-/
import Gunsmith.Proofs.Queue.Line
import Mathlib.Logic.Relation

namespace Gunsmith

/-! ### Moving a job on by name -/

/-- The ways in which a job is moved on by name. -/
inductive JobUpdate where
  | process
  | complete
  | fail (error : String)
deriving DecidableEq, Inhabited

namespace JobUpdate

/-- The states from which a job is moved on. -/
def sources : JobUpdate → List JobStatus
  | .process => [.queued]
  | .complete => [.queued, .processing]
  | .fail _ => [.queued, .processing]

/-- The state that a job is moved to. -/
def target : JobUpdate → JobStatus
  | .process => .processing
  | .complete => .completed
  | .fail _ => .failed

/-- The row after its job was moved on. -/
def apply (u : JobUpdate) (now : String) (row : JobRow) : JobRow :=
  match u with
  | .process => { row with status := JobStatus.processing.keyword, startedAt := some now }
  | .complete => { row with status := JobStatus.completed.keyword, completedAt := some now }
  | .fail error =>
    { row with
      status := JobStatus.failed.keyword
      completedAt := some now
      error := some error }

/-- The call that moves a job on. -/
def action (u : JobUpdate) (m : Moment) (id : String) : Transaction Unit :=
  match u with
  | .process => Transaction.setProcessing m id
  | .complete => Transaction.setCompleted m id
  | .fail error => Transaction.setFailed m id error

theorem action_eq (u : JobUpdate) (m : Moment) (id : String) :
    u.action m id = Transaction.moveJob id u.sources u.target (u.apply m.now) := by
  cases u <;> rfl

@[simp]
theorem id_apply (u : JobUpdate) (now : String) (row : JobRow) : (u.apply now row).id = row.id := by
  cases u <;> rfl

@[simp]
theorem status_apply (u : JobUpdate) (now : String) (row : JobRow) :
    (u.apply now row).status = u.target.keyword := by
  cases u <;> rfl

theorem target_ne_queued (u : JobUpdate) : u.target ≠ .queued := by
  cases u <;> exact nofun

/-- What is moved on does not wait. -/
theorem not_waits_apply (u : JobUpdate) (now : String) (row : JobRow) :
    ¬ (u.apply now row).Waits := by
  rw [JobRow.Waits, status_apply]
  exact fun h => u.target_ne_queued (JobStatus.keyword_injective h)

/-- No job that has ended is moved on. -/
theorem not_terminal_of_mem_sources {u : JobUpdate} {status : JobStatus} (h : status ∈ u.sources) :
    ¬ status.Terminal := by
  have hmem : status ∈ [JobStatus.queued, .processing] := by
    cases u with
    | process => exact List.mem_cons.mpr (Or.inl (List.mem_singleton.mp h))
    | complete => exact h
    | fail _ => exact h
  rcases List.mem_pair.mp hmem with rfl | rfl
  · exact id
  · exact id

end JobUpdate

/-! ### Rows that advance -/

/-- The rows are of the same request: what is asked for, how urgently, and since when. -/
structure JobRow.SameRequest (a b : JobRow) : Prop where
  id : b.id = a.id
  itemId : b.itemId = a.itemId
  stat : b.stat = a.stat
  constraints : b.constraints = a.constraints
  priority : b.priority = a.priority
  createdAt : b.createdAt = a.createdAt

/-- A row stays as it is, or is moved on from a state in which it may be. -/
inductive JobRow.Advances (row : JobRow) : JobRow → Prop
  | stay : row.Advances row
  | move (u : JobUpdate) (now : String) (h : row.status ∈ u.sources.map JobStatus.keyword) :
    row.Advances (u.apply now row)

namespace JobRow

variable {a b c : JobRow}

theorem SameRequest.refl (a : JobRow) : a.SameRequest a := ⟨rfl, rfl, rfl, rfl, rfl, rfl⟩

theorem SameRequest.trans (h : a.SameRequest b) (h' : b.SameRequest c) : a.SameRequest c :=
  ⟨h'.id.trans h.id, h'.itemId.trans h.itemId, h'.stat.trans h.stat,
    h'.constraints.trans h.constraints, h'.priority.trans h.priority,
    h'.createdAt.trans h.createdAt⟩

theorem Advances.sameRequest (h : a.Advances b) : a.SameRequest b := by
  cases h with
  | stay => exact SameRequest.refl a
  | move u now _ => cases u <;> exact ⟨rfl, rfl, rfl, rfl, rfl, rfl⟩

/-- Nothing returns to waiting. -/
theorem Advances.eq_of_waits (h : a.Advances b) (hb : b.Waits) : a = b := by
  cases h with
  | stay => rfl
  | move u now _ => exact absurd hb (u.not_waits_apply now a)

/-- What has ended stays as it is. -/
theorem Advances.eq_of_terminal (h : a.Advances b) {status : JobStatus}
    (hstatus : a.status = status.keyword) (hend : status.Terminal) : b = a := by
  cases h with
  | stay => rfl
  | move u now hsource =>
    obtain ⟨source, hmem, hkeyword⟩ := List.mem_map.mp hsource
    obtain rfl := JobStatus.keyword_injective (hkeyword.trans hstatus)
    exact absurd hend (JobUpdate.not_terminal_of_mem_sources hmem)

theorem sameRequest_of_advances (h : Relation.ReflTransGen Advances a b) : a.SameRequest b := by
  induction h with
  | refl => exact SameRequest.refl a
  | tail _ h ih => exact ih.trans h.sameRequest

theorem eq_of_advances_of_waits (h : Relation.ReflTransGen Advances a b) (hb : b.Waits) :
    a = b := by
  induction h with
  | refl => rfl
  | tail _ h ih =>
    obtain rfl := h.eq_of_waits hb
    exact ih hb

theorem eq_of_advances_of_terminal (h : Relation.ReflTransGen Advances a b) {status : JobStatus}
    (hstatus : a.status = status.keyword) (hend : status.Terminal) : b = a := by
  induction h with
  | refl => rfl
  | tail _ h ih =>
    subst ih
    exact h.eq_of_terminal hstatus hend

end JobRow

/-! ### Tables of jobs -/

/-- The rows of the table of jobs, or none. -/
def Store.jobRows (s : Store) : List JobRow := s.jobs.getD []

/-- The table of jobs has these rows, and their ids are keys. -/
structure Store.JobTable (s : Store) (rows : List JobRow) : Prop where
  jobs : s.jobs = some rows
  ids : (rows.map JobRow.id).Nodup

/-- The ids stay if a row is replaced by one with the same id. -/
theorem JobRow.map_id_set {rows : List JobRow} {i : Nat} {row other : JobRow}
    (hrow : rows[i]? = some row) (hid : other.id = row.id) :
    (rows.set i other).map JobRow.id = rows.map JobRow.id := by
  obtain ⟨hi, rfl⟩ := List.getElem?_eq_some_iff.mp hrow
  have hi' : i < (rows.map JobRow.id).length := by rwa [List.length_map]
  have hget : (rows.map JobRow.id)[i] = other.id := by rw [List.getElem_map, hid]
  rw [List.map_set, ← hget]
  exact List.set_getElem_self hi'

namespace Store.JobTable

variable {s : Store} {rows : List JobRow} {i j : Nat} {row other : JobRow}

theorem jobRows_eq (h : s.JobTable rows) : s.jobRows = rows := by
  rw [jobRows, h.jobs]
  rfl

/-- Rows with the same id are the same row. -/
theorem position_unique (h : s.JobTable rows) (hrow : rows[i]? = some row)
    (hother : rows[j]? = some other) (hid : other.id = row.id) : j = i := by
  obtain ⟨hi, rfl⟩ := List.getElem?_eq_some_iff.mp hrow
  obtain ⟨hj, rfl⟩ := List.getElem?_eq_some_iff.mp hother
  have hi' : i < (rows.map JobRow.id).length := by rwa [List.length_map]
  have hj' : j < (rows.map JobRow.id).length := by rwa [List.length_map]
  have hget : (rows.map JobRow.id)[j] = (rows.map JobRow.id)[i] := by
    rw [List.getElem_map, List.getElem_map]
    exact hid
  exact h.ids.getElem_inj_iff.mp hget

/-- A row is found by its id. -/
theorem find?_id (h : s.JobTable rows) (hrow : rows[i]? = some row) :
    rows.find? (fun other => other.id = row.id) = some row := by
  cases hfind : rows.find? fun other => other.id = row.id with
  | none =>
    have hmem := List.mem_of_getElem? hrow
    exact absurd (decide_eq_true rfl) (List.find?_eq_none.mp hfind row hmem)
  | some other =>
    have hsought := List.find?_some hfind
    obtain ⟨j, hj⟩ := List.mem_iff_getElem?.mp (List.mem_of_find?_eq_some hfind)
    obtain rfl := h.position_unique hrow hj (of_decide_eq_true hsought)
    exact hj.symm.trans hrow

/-- A change of the rows with an id, of which there is one, replaces that row. -/
theorem updateRows_eq (h : s.JobTable rows) {applies : JobRow → Bool} {change : JobRow → JobRow}
    (hrow : rows[i]? = some row) (happlies : applies row = true)
    (hid : ∀ other, applies other = true → other.id = row.id) :
    (updateRows applies change rows).1 = rows.set i (change row) :=
  updateRows_eq_set hrow happlies fun _ other hother hother' =>
    h.position_unique hrow hother (hid other hother')

/-- The table stays one if a row is replaced by one with the same id. -/
theorem set (h : s.JobTable rows) (hrow : rows[i]? = some row) (hid : other.id = row.id) :
    (s.put .jobs (some (rows.set i other))).JobTable (rows.set i other) := by
  refine ⟨rfl, ?_⟩
  rw [JobRow.map_id_set hrow hid]
  exact h.ids

/-- The table stays one if a row with a new id is added. -/
theorem append (h : s.JobTable rows) (hid : row.id ∉ rows.map JobRow.id) :
    (s.put .jobs (some (rows ++ [row]))).JobTable (rows ++ [row]) := by
  refine ⟨rfl, ?_⟩
  rw [List.map_append, List.nodup_append]
  refine ⟨h.ids, List.nodup_singleton _, ?_⟩
  rintro id hmem id' hid' rfl
  rw [List.map_singleton, List.mem_singleton] at hid'
  exact hid (hid' ▸ hmem)

end Store.JobTable

/-! ### What moving a job on does -/

section Move

variable {s : Store} {rows : List JobRow} {i : Nat} {row : JobRow} {id : String}
  {sources : List JobStatus} {target : JobStatus} {change : JobRow → JobRow}

theorem movable_eq_true :
    Transaction.movable id sources row = true ↔
      row.id = id ∧ row.status ∈ sources.map JobStatus.keyword := by
  rw [Transaction.movable, Bool.and_eq_true, beq_iff_eq, List.contains_iff_mem]

/-- There is no such job. -/
theorem moveJob_unknown (h : s.jobs = some rows) (hid : ∀ row ∈ rows, row.id ≠ id) :
    Transaction.moveJob id sources target change s =
      .error (.notFound Table.jobs.name id) := by
  have hcount : (updateRows (Transaction.movable id sources) change rows).2 = 0 := by
    refine updateRows_count_eq_zero fun row hrow => Bool.eq_false_iff.mpr fun hmove => ?_
    exact hid row hrow (movable_eq_true.mp hmove).1
  have hnone : rows.find? (fun row => row.id = id) = none :=
    List.find?_eq_none.mpr fun row hrow hmem => hid row hrow (of_decide_eq_true hmem)
  rw [Transaction.moveJob_run h, if_pos hcount, hnone]

/-- The job is in a state from which it is not moved on. -/
theorem moveJob_refused (h : s.JobTable rows) (hrow : row ∈ rows)
    (hsource : row.status ∉ sources.map JobStatus.keyword) :
    Transaction.moveJob row.id sources target change s =
      .error (.badTransition row.id row.status target.keyword) := by
  obtain ⟨i, hi⟩ := List.mem_iff_getElem?.mp hrow
  have hsame : ∀ other ∈ rows, other.id = row.id → other = row := by
    intro other hother hid
    obtain ⟨j, hj⟩ := List.mem_iff_getElem?.mp hother
    obtain rfl := h.position_unique hi hj hid
    exact Option.some.inj (hj.symm.trans hi)
  have hcount : (updateRows (Transaction.movable row.id sources) change rows).2 = 0 := by
    refine updateRows_count_eq_zero fun other hother => Bool.eq_false_iff.mpr fun hmove => ?_
    obtain ⟨hid, hmem⟩ := movable_eq_true.mp hmove
    exact hsource (hsame other hother hid ▸ hmem)
  rw [Transaction.moveJob_run h.jobs, if_pos hcount, h.find?_id hi]

/-- The job is moved on. -/
theorem moveJob_moved (h : s.JobTable rows) (hrow : rows[i]? = some row)
    (hsource : row.status ∈ sources.map JobStatus.keyword) :
    Transaction.moveJob row.id sources target change s =
      .ok ((), s.put .jobs (some (rows.set i (change row)))) := by
  have hmove : Transaction.movable row.id sources row = true := movable_eq_true.mpr ⟨rfl, hsource⟩
  rw [Transaction.moveJob_run h.jobs,
    if_neg (updateRows_count_ne_zero (List.mem_of_getElem? hrow) hmove),
    h.updateRows_eq hrow hmove fun _ hother => (movable_eq_true.mp hother).1]

end Move

/-! ### Jobs in rows -/

/-- The row decodes to the job. -/
structure JobRow.Decodes (row : JobRow) (job : Job) : Prop where
  stat : Column.parse 2 (Stat.parse row.stat) = .ok job.stat
  constraints : Column.json 3 Constraints.ofJson? row.constraints = .ok job.constraints
  status : Column.parse 5 (JobStatus.parse row.status) = .ok job.status
  id : job.id = row.id
  itemId : job.itemId = row.itemId
  priority : job.priority = row.priority
  createdAt : job.createdAt = row.createdAt
  startedAt : job.startedAt = row.startedAt
  completedAt : job.completedAt = row.completedAt
  error : job.error = row.error

theorem JobRow.job_eq_ok {row : JobRow} {job : Job} : row.job = .ok job ↔ row.Decodes job := by
  constructor
  · intro h
    unfold JobRow.job at h
    cases hstat : Column.parse 2 (Stat.parse row.stat) with
    | error e =>
      rw [hstat] at h
      exact absurd h nofun
    | ok stat =>
      cases hcons : Column.json 3 Constraints.ofJson? row.constraints with
      | error e =>
        rw [hstat, hcons] at h
        exact absurd h nofun
      | ok c =>
        cases hstatus : Column.parse 5 (JobStatus.parse row.status) with
        | error e =>
          rw [hstat, hcons, hstatus] at h
          exact absurd h nofun
        | ok status =>
          rw [hstat, hcons, hstatus] at h
          obtain rfl := Except.ok.inj h
          exact ⟨hstat, hcons, hstatus, rfl, rfl, rfl, rfl, rfl, rfl, rfl⟩
  · rintro ⟨hstat, hcons, hstatus, hid, hitem, hprio, hcreated, hstarted, hcompleted, herror⟩
    unfold JobRow.job
    rw [hstat, hcons, hstatus, ← hid, ← hitem, ← hprio, ← hcreated, ← hstarted, ← hcompleted,
      ← herror]
    rfl

/-- The job in a row that is moved on to be processed. -/
theorem JobRow.Decodes.process {row : JobRow} {job : Job} (h : row.Decodes job) (now : String) :
    (JobUpdate.process.apply now row).Decodes
      { job with status := .processing, startedAt := some now } :=
  ⟨h.stat, h.constraints, rfl, h.id, h.itemId, h.priority, h.createdAt, rfl, h.completedAt, h.error⟩

/-! ### What a claim does -/

section Claim

variable {s : Store} {rows : List JobRow} {i : Nat} {row : JobRow}

/-- Nobody waits. -/
theorem claim_idle (h : s.jobs = some rows) (hidle : ∀ row ∈ rows, ¬ row.Waits) (m : Moment) :
    Transaction.claim m s = .ok (none, s) := by
  have hrows : s.rows? .jobs = some rows := h
  rw [Transaction.claim, Transaction.rows_bind hrows]
  rcases JobRow.first?_waiting rows with ⟨hnone, -⟩ | ⟨i, row, -, hfirst⟩
  · rw [hnone]
    rfl
  · exact absurd hfirst.waits (hidle row (List.mem_of_getElem? hfirst.stands))

/-- The first in line does not decode. -/
theorem claim_unreadable (h : s.jobs = some rows) (hfirst : JobRow.FirstInLine rows i row)
    {e : StoreError} (hjob : row.job = .error e) (m : Moment) :
    Transaction.claim m s = .error e := by
  have hrows : s.rows? .jobs = some rows := h
  rw [Transaction.claim, Transaction.rows_bind hrows]
  simp only [hfirst.first?, hjob]
  rfl

/-- The first in line is claimed. -/
theorem claim_readable (h : s.JobTable rows) (hfirst : JobRow.FirstInLine rows i row) {job : Job}
    (hjob : row.Decodes job) (m : Moment) :
    Transaction.claim m s =
      .ok (some { job with status := .processing, startedAt := some m.now },
        s.put .jobs (some (rows.set i (JobUpdate.process.apply m.now row)))) := by
  have hrows : s.rows? .jobs = some rows := h.jobs
  have happlies : (row.id == row.id && row.status == JobStatus.queued.keyword) = true := by
    rw [Bool.and_eq_true]
    exact ⟨beq_self_eq_true _, beq_iff_eq.mpr hfirst.waits⟩
  have hset : (updateRows
      (fun other => other.id == row.id && other.status == JobStatus.queued.keyword)
      (JobUpdate.process.apply m.now) rows).1 = rows.set i (JobUpdate.process.apply m.now row) :=
    h.updateRows_eq hfirst.stands happlies fun other hother =>
      beq_iff_eq.mp (Bool.and_eq_true_iff.mp hother).1
  rw [← hset, Transaction.claim, Transaction.rows_bind hrows]
  simp only [hfirst.first?, JobRow.job_eq_ok.mpr hjob]
  rfl

end Claim

end Gunsmith
