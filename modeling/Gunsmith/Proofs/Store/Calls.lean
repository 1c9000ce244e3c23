/-
  What the calls on jobs, builds and kept results do to an orderly store.

  Every call keeps the store orderly, whether it succeeds or fails, and writes one table
  only.  For the calls that the processing of a job makes there is one lemma each that says
  when the call succeeds, what a look-up finds afterwards, and what is left alone: the other
  jobs, the builds and kept results for other requests, and all other tables.
-/
import Gunsmith.Proofs.Store.Orderly
import Gunsmith.Store.Catalog

namespace Gunsmith

namespace Transaction

variable {s : Store}

/-! ### Jobs -/

/-- A change of the rows of jobs in some states that is a change of jobs. -/
structure JobChange (sources : List JobStatus) (change : JobRow → JobRow) (f : Job → Job) :
    Prop where
  id : ∀ row, (change row).id = row.id
  row : ∀ j, (f j).row = change j.row
  sound : ∀ j, j.Sound → j.status ∈ sources → (f j).Sound

/-- The condition for a job to be moved on. -/
def movable (id : String) (sources : List JobStatus) (row : JobRow) : Bool :=
  row.id == id && (sources.map JobStatus.keyword).contains row.status

theorem movable_row {id : String} {sources : List JobStatus} {j : Job} :
    movable id sources j.row = true ↔ j.id = id ∧ j.status ∈ sources := by
  simp only [movable, Bool.and_eq_true, beq_iff_eq, List.contains_iff_mem, List.mem_map, Job.row]
  constructor
  · rintro ⟨hid, t, ht, hkeyword⟩
    exact ⟨hid, JobStatus.keyword_injective hkeyword ▸ ht⟩
  · rintro ⟨hid, hstatus⟩
    exact ⟨hid, j.status, hstatus, rfl⟩

/-- Jobs that are moved on stay orderly. -/
theorem JobChange.orderly {sources : List JobStatus} {change : JobRow → JobRow} {f : Job → Job}
    (hchange : JobChange sources change f) {rows : List JobRow} (h : JobRow.Orderly rows)
    (id : String) : JobRow.Orderly (updateRows (movable id sources) change rows).1 where
  written := h.written.updateRows fun j hj happlies =>
    ⟨f j, hchange.sound j hj (movable_row.mp happlies).2, hchange.row j⟩
  ids := by
    rw [map_updateRows hchange.id]
    exact h.ids

/-- **What moving a job on does**: if no row is moved, the failure tells whether there is one. -/
theorem moveJob_run {rows : List JobRow} (h : s.jobs = some rows) (id : String)
    (sources : List JobStatus) (target : JobStatus) (change : JobRow → JobRow) :
    moveJob id sources target change s =
      if (updateRows (movable id sources) change rows).2 = 0 then
        match rows.find? fun row => row.id = id with
        | none => .error (.notFound Table.jobs.name id)
        | some row => .error (.badTransition id row.status target.keyword)
      else .ok ((), s.put .jobs (some (updateRows (movable id sources) change rows).1)) := by
  have hrows : s.rows? .jobs = some rows := h
  rw [moveJob, rows_bind hrows]
  show (if (updateRows (movable id sources) change rows).2 = 0 then _ else _ :
    Transaction Unit) s = _
  split_ifs with hcount
  · cases rows.find? fun row => row.id = id <;> rfl
  · rfl

/-- Moving a job on fails, or replaces the rows. -/
theorem moveJob_eq {rows : List JobRow} (h : s.jobs = some rows) (id : String)
    (sources : List JobStatus) (target : JobStatus) (change : JobRow → JobRow) :
    (∃ e, moveJob id sources target change s = .error e ∧
      (updateRows (movable id sources) change rows).2 = 0) ∨
    moveJob id sources target change s =
      .ok ((), s.put .jobs (some (updateRows (movable id sources) change rows).1)) := by
  rw [moveJob_run h]
  split_ifs with hcount
  · left
    cases rows.find? fun row => row.id = id <;> exact ⟨_, rfl, hcount⟩
  · right
    rfl

/-- Moving a job on writes the jobs only. -/
theorem onlyWrites_moveJob (id : String) (sources : List JobStatus) (target : JobStatus)
    (change : JobRow → JobRow) : OnlyWrites .jobs (moveJob id sources target change) := by
  refine .bind (.rows _) fun rows => ?_
  dsimp only
  split
  · split <;> exact .bind (.throw _) fun _ => .write _
  · exact .write _

theorem moveJob_orderly (h : s.Orderly) {sources : List JobStatus} {change : JobRow → JobRow}
    {f : Job → Job} (hchange : JobChange sources change f) (id : String) (target : JobStatus) :
    ((moveJob id sources target change).call s).2.Orderly := by
  obtain ⟨rows, hrows, ho⟩ := h.jobs
  rcases moveJob_eq hrows id sources target change with ⟨e, herror, -⟩ | hok
  · rw [Transaction.call, herror]
    exact h
  · rw [call_ok hok]
    exact ⟨⟨_, rfl, hchange.orderly ho id⟩, h.builds, h.subtrees⟩

/-- **Moving a job on**: it succeeds if the job is in one of the states, and changes nothing but the
job. -/
theorem moveJob_call (h : s.Orderly) {sources : List JobStatus} {change : JobRow → JobRow}
    {f : Job → Job} (hchange : JobChange sources change f) {id : String} {target : JobStatus}
    {job : Job} (hjob : s.job? id = .ok (some job)) (hstatus : job.status ∈ sources) :
    ∃ s', (moveJob id sources target change).call s = (.ok (), s') ∧ s'.Orderly ∧
      s'.job? id = .ok (some (f job)) ∧ s'.otherJobs id = s.otherJobs id ∧
      ∀ u, u ≠ .jobs → s'.rows? u = s.rows? u := by
  obtain ⟨rows, hrows, ho⟩ := h.jobs
  obtain ⟨hsound, hfind⟩ := (Store.job?_eq_some hrows ho).mp hjob
  have hid : job.id = id := by
    have hrow := List.find?_some hfind
    exact of_decide_eq_true hrow
  have hmovable : movable id sources job.row = true := movable_row.mpr ⟨hid, hstatus⟩
  have hcount := @updateRows_count_ne_zero _ change rows _ _ (List.mem_of_find?_eq_some hfind)
    hmovable
  rcases moveJob_eq hrows id sources target change with ⟨e, -, hzero⟩ | hok
  · exact absurd hzero hcount
  have ho' := hchange.orderly ho id
  refine ⟨_, call_ok hok, ⟨⟨_, rfl, ho'⟩, h.builds, h.subtrees⟩, ?_, ?_, fun u hu => ?_⟩
  · refine (Store.job?_eq_some rfl ho').mpr ⟨hchange.sound job hsound hstatus, ?_⟩
    rw [find?_updateRows fun row => by rw [hchange.id], hfind, Option.map_some, if_pos hmovable,
      hchange.row]
  · show some _ = Option.map _ s.jobs
    rw [hrows, Option.map_some]
    refine congrArg some (filter_updateRows (fun row _ hkept => ?_) fun row => ?_)
    · simp only [Bool.not_eq_true', decide_eq_false_iff_not] at hkept
      simp [movable, hkept]
    · rw [hchange.id]
  · exact s.rows?_put_of_ne (Ne.symm hu) _

/-- Completing a job as a change of jobs. -/
theorem jobChange_completed (m : Moment) :
    JobChange [.queued, .processing]
      (fun row => { row with
        status := JobStatus.completed.keyword
        completedAt := some m.now })
      fun j => { j with status := .completed, completedAt := some m.now } where
  id _ := rfl
  row _ := rfl
  sound _ hj hstatus := ⟨hj.accepted, fun _ => hj.error_of_mem hstatus (by decide)⟩

/-- Failing a job as a change of jobs. -/
theorem jobChange_failed (m : Moment) (error : String) :
    JobChange [.queued, .processing]
      (fun row => { row with
        status := JobStatus.failed.keyword
        completedAt := some m.now
        error := some error })
      fun j => { j with status := .failed, completedAt := some m.now, error := some error } where
  id _ := rfl
  row _ := rfl
  sound _ hj _ := ⟨hj.accepted, fun h => absurd rfl h⟩

/-- Claiming a job as a change of jobs. -/
theorem jobChange_claimed (m : Moment) :
    JobChange [.queued]
      (fun row => { row with
        status := JobStatus.processing.keyword
        startedAt := some m.now })
      fun j => { j with status := .processing, startedAt := some m.now } where
  id _ := rfl
  row _ := rfl
  sound _ hj hstatus := ⟨hj.accepted, fun _ => hj.error_of_mem hstatus (by decide)⟩

/-- The first of some rows is one of them. -/
theorem mem_of_first? {rows : List JobRow} {row : JobRow} (h : JobRow.first? rows = some row) :
    row ∈ rows := by
  induction rows with
  | nil => exact absurd h nofun
  | cons first rows ih =>
    rw [JobRow.first?] at h
    split at h
    · obtain rfl := Option.some.inj h
      exact List.mem_cons_self
    · next other hother =>
      split_ifs at h
      · obtain rfl := Option.some.inj h
        exact List.mem_cons_self
      · exact List.mem_cons_of_mem first (ih (hother.trans h))

/-- A claim answers with the waiting job that is first in line, and moves it on. -/
theorem claim_call {rows : List JobRow} (h : s.jobs = some rows) {job : Job} (hjob : job.Sound)
    (hfirst : JobRow.first? (JobRow.waiting rows) = some job.row) (m : Moment) :
    (claim m).call s = (.ok (some { job with status := .processing, startedAt := some m.now }),
      s.put .jobs (some (updateRows (movable job.id [.queued])
        (fun row => { row with
          status := JobStatus.processing.keyword
          startedAt := some m.now }) rows).1)) := by
  have hrows : s.rows? .jobs = some rows := h
  have happlies : (fun other : JobRow =>
      other.id == job.id && other.status == JobStatus.queued.keyword) =
      movable job.id [.queued] := by
    funext other
    simp only [movable, List.map_cons, List.map_nil, List.contains_cons, List.contains_nil,
      Bool.or_false]
  rw [← happlies]
  apply call_ok
  rw [claim, rows_bind hrows]
  simp only [hfirst, Job.job_row hjob]
  rfl

/-- A claim writes the jobs only. -/
theorem onlyWrites_claim (m : Moment) : OnlyWrites .jobs (claim m) := by
  refine .bind (.rows _) fun rows => ?_
  split
  · exact .pure _
  · exact .bind (.lift _) fun _ => .bind (.write _) fun _ => .pure _

/-- A claim keeps the store orderly. -/
theorem claim_orderly (h : s.Orderly) (m : Moment) : ((claim m).call s).2.Orderly := by
  obtain ⟨rows, hrows, ho⟩ := h.jobs
  cases hfirst : JobRow.first? (JobRow.waiting rows) with
  | none =>
    have hrows' : s.rows? .jobs = some rows := hrows
    have hrun : claim m s = .ok (none, s) := by
      rw [claim, rows_bind hrows']
      simp only [hfirst]
      rfl
    rw [call_ok hrun]
    exact h
  | some row =>
    have hwaiting : row ∈ rows := List.mem_of_mem_filter (mem_of_first? hfirst)
    obtain ⟨job, hjob, rfl⟩ := ho.written row hwaiting
    rw [claim_call hrows hjob hfirst]
    exact ⟨⟨_, rfl, (jobChange_claimed m).orderly ho job.id⟩, h.builds, h.subtrees⟩

/-- A job as it is entered. -/
def entered (m : Moment) (itemId : String) (stat : Stat) (c : Constraints) (priority : Int) : Job :=
  ⟨m.fresh, itemId, stat, c, priority, .queued, m.now, none, none, none⟩

/-- Entering a row with a new id adds it. -/
theorem insertJob_of_new {rows : List JobRow} (h : s.jobs = some rows) {row : JobRow}
    (hid : row.id ∉ rows.map JobRow.id) :
    insertJob row s = .ok ((), s.put .jobs (some (rows ++ [row]))) := by
  have hrows : s.rows? .jobs = some rows := h
  have hunused : (rows.any fun other => other.id == row.id) = false := by
    refine List.any_eq_false.mpr fun other hother heq => hid ?_
    exact beq_iff_eq.mp heq ▸ List.mem_map_of_mem hother
  rw [insertJob, rows_bind hrows, hunused]
  rfl

/-- A row with an id that is in use is refused. -/
theorem insertJob_of_used {rows : List JobRow} (h : s.jobs = some rows) {row : JobRow}
    (hid : row.id ∈ rows.map JobRow.id) :
    insertJob row s = .error (.repeatedKey "evaluation_queue.job_id") := by
  have hrows : s.rows? .jobs = some rows := h
  have hused : (rows.any fun other => other.id == row.id) = true := by
    obtain ⟨other, hother, heq⟩ := List.mem_map.mp hid
    exact List.any_eq_true.mpr ⟨other, hother, beq_iff_eq.mpr heq⟩
  rw [insertJob, rows_bind hrows, hused]
  rfl

/-- Without the table no row is entered. -/
theorem insertJob_of_missing (h : s.jobs = none) (row : JobRow) :
    insertJob row s = .error (.missingTable Table.jobs.name) := by
  have hrows : s.rows .jobs = .error (.missingTable Table.jobs.name) := by
    rw [Store.rows, show s.rows? .jobs = none from h]
  rw [insertJob]
  show (Except.bind (Except.bind (s.rows .jobs) _) _ : Except StoreError _) = _
  rw [hrows]
  rfl

/-- A job for an item without a name is refused, whatever the store. -/
theorem enqueue_of_blank {c : Constraints} (hvalid : c.validate = .ok ()) {itemId : String}
    (hitem : Text.isAllBlank itemId = true) (m : Moment) (stat : Stat) (priority : Int)
    (s : Store) :
    enqueue m itemId stat c priority s = .error (.badField "item_id" "不能为空") := by
  rw [enqueue, hvalid]
  dsimp only
  rw [hitem]
  rfl

/-- Any other job with accepted constraints is entered as its row is. -/
theorem enqueue_of_named {c : Constraints} (hvalid : c.validate = .ok ()) {itemId : String}
    (hitem : Text.isAllBlank itemId = false) (m : Moment) (stat : Stat) (priority : Int)
    (s : Store) :
    enqueue m itemId stat c priority s =
      (insertJob (entered m itemId stat c priority).row s).map fun r => (m.fresh, r.2) := by
  rw [enqueue, hvalid]
  dsimp only
  rw [hitem, if_neg Bool.false_ne_true]
  show StateT.bind (insertJob (entered m itemId stat c priority).row) _ s = _
  rw [StateT.bind]
  cases insertJob (entered m itemId stat c priority).row s <;> rfl

/-- A job for a named item with accepted constraints is entered, at a new id. -/
theorem enqueue_of_accepted {rows : List JobRow} (h : s.jobs = some rows) {m : Moment}
    {itemId : String} {c : Constraints} (hvalid : c.validate = .ok ())
    (hitem : Text.isAllBlank itemId = false) (hid : m.fresh ∉ rows.map JobRow.id) (stat : Stat)
    (priority : Int) :
    enqueue m itemId stat c priority s =
      .ok (m.fresh, s.put .jobs (some (rows ++ [(entered m itemId stat c priority).row]))) := by
  rw [enqueue_of_named hvalid hitem, insertJob_of_new h hid]
  rfl

/-- Without the table no job is entered. -/
theorem enqueue_of_missing (h : s.jobs = none) (m : Moment) (itemId : String) (stat : Stat)
    (c : Constraints) (priority : Int) :
    ∃ e, enqueue m itemId stat c priority s = .error e := by
  cases hvalid : c.validate with
  | error detail =>
    refine ⟨.invalid detail, ?_⟩
    rw [enqueue, hvalid]
    rfl
  | ok u =>
    cases hitem : Text.isAllBlank itemId with
    | true => exact ⟨_, enqueue_of_blank hvalid hitem m stat priority s⟩
    | false =>
      refine ⟨.missingTable Table.jobs.name, ?_⟩
      rw [enqueue_of_named hvalid hitem, insertJob_of_missing h]
      rfl

/-- Entering a job fails, or enters the row of a waiting job with accepted constraints. -/
theorem enqueue_eq {rows : List JobRow} (h : s.jobs = some rows) (m : Moment) (itemId : String)
    (stat : Stat) (c : Constraints) (priority : Int) :
    (∃ e, enqueue m itemId stat c priority s = .error e) ∨
    (entered m itemId stat c priority).Sound ∧ m.fresh ∉ rows.map JobRow.id ∧
      enqueue m itemId stat c priority s =
        .ok (m.fresh, s.put .jobs (some (rows ++ [(entered m itemId stat c priority).row]))) := by
  cases hvalid : c.validate with
  | error detail =>
    left
    refine ⟨.invalid detail, ?_⟩
    rw [enqueue, hvalid]
    rfl
  | ok u =>
    cases hitem : Text.isAllBlank itemId with
    | true =>
      left
      exact ⟨_, enqueue_of_blank hvalid hitem m stat priority s⟩
    | false =>
      by_cases hid : m.fresh ∈ rows.map JobRow.id
      · left
        refine ⟨.repeatedKey "evaluation_queue.job_id", ?_⟩
        rw [enqueue_of_named hvalid hitem, insertJob_of_used h hid]
        rfl
      · right
        exact ⟨⟨hvalid, fun _ => rfl⟩, hid,
          enqueue_of_accepted h hvalid hitem hid stat priority⟩

/-- Entering a job writes the jobs only. -/
theorem onlyWrites_enqueue (m : Moment) (itemId : String) (stat : Stat) (c : Constraints)
    (priority : Int) : OnlyWrites .jobs (enqueue m itemId stat c priority) := by
  have hinsert : ∀ row, OnlyWrites .jobs (insertJob row) := by
    refine fun row => .bind (.rows _) fun rows => ?_
    split
    · exact .bind (.throw _) fun _ => .write _
    · exact .write _
  unfold enqueue
  split
  · exact .throw _
  · split
    · exact .bind (.throw _) fun _ => .bind (hinsert _) fun _ => .pure _
    · exact .bind (hinsert _) fun _ => .pure _

/-- Entering a job keeps the store orderly. -/
theorem enqueue_orderly (h : s.Orderly) (m : Moment) (itemId : String) (stat : Stat)
    (c : Constraints) (priority : Int) :
    ((enqueue m itemId stat c priority).call s).2.Orderly := by
  obtain ⟨rows, hrows, ho⟩ := h.jobs
  rcases enqueue_eq hrows m itemId stat c priority with ⟨e, herror⟩ | ⟨hjob, hid, hok⟩
  · rw [Transaction.call, herror]
    exact h
  · rw [call_ok hok]
    refine ⟨⟨_, rfl, ho.written.append_singleton hjob, ?_⟩, h.builds, h.subtrees⟩
    rw [List.map_append, List.nodup_append]
    refine ⟨ho.ids, List.nodup_singleton _, ?_⟩
    rintro id hmem id' hid' rfl
    rw [List.mem_singleton.mp hid'] at hmem
    exact hid hmem

/-! ### Builds -/

section Builds

variable {itemId version : String} {stat : Stat} {c : Constraints} {status : BuildStatus}
  {result : Option BuildResult}

/-- The row of a request, written anew. -/
def rewritten (m : Moment) (status : BuildStatus) (result : Option BuildResult)
    (row : BuildRow) : BuildRow :=
  { row with
    status := status.keyword
    result := result.map fun r => r.toJson.print
    error := none
    updatedAt := m.now }

/-- The build of a request, written for the first time. -/
def begun (m : Moment) (itemId : String) (stat : Stat) (c : Constraints) (version : String)
    (status : BuildStatus) (result : Option BuildResult) : BuildRecord :=
  ⟨m.fresh, itemId, stat, version, c, status, result, none, m.now, m.now⟩

/-- What may be written for a request. -/
structure Writable (itemId : String) (stat : Stat) (c : Constraints) (status : BuildStatus)
    (result : Option BuildResult) : Prop where
  accepted : c.validate = .ok ()
  answers : ∀ r, result = some r → r.Answers itemId stat
  completed : status = .completed → result.isSome

/-- The beginning of an evaluation may be written. -/
theorem writable_processing (h : c.validate = .ok ()) (itemId : String) (stat : Stat) :
    Writable itemId stat c .processing none :=
  ⟨h, fun _ hr => absurd hr nofun, fun hs => absurd hs nofun⟩

/-- A result for the item and the stat may be written. -/
theorem writable_completed (h : c.validate = .ok ()) {r : BuildResult} (hr : r.Answers itemId stat) :
    Writable itemId stat c .completed (some r) :=
  ⟨h, fun _ hr' => Option.some.inj hr' ▸ hr, fun _ => rfl⟩

/-- The record behind a row stays one when the row is written anew. -/
theorem Writable.rewritten (hw : Writable itemId stat c status result) (m : Moment)
    {b : BuildRecord} (hb : b.Sound) (hkey : b.row.key = .of itemId stat c version) :
    ∃ b' : BuildRecord, b'.Sound ∧ b'.row = rewritten m status result b.row ∧
      b'.status = status ∧ b'.result = result ∧ b'.error = none := by
  obtain ⟨hitem, hstat, -, -⟩ := BuildKey.mk.inj hkey
  obtain rfl : b.itemId = itemId := hitem
  obtain rfl : b.stat = stat := Stat.name_injective hstat
  exact ⟨{ b with status := status, result := result, error := none, updatedAt := m.now },
    ⟨hb.accepted, hw.answers, hw.completed⟩, rfl, rfl, rfl, rfl⟩

/-- Writing a build writes the builds only. -/
theorem onlyWrites_upsertBuild (m : Moment) (itemId : String) (stat : Stat) (c : Constraints)
    (version : String) (status : BuildStatus) (result : Option BuildResult) :
    OnlyWrites .builds (upsertBuild m itemId stat c version status result) := by
  refine .bind (.rows _) fun rows => .bind (.write _) fun _ => ?_
  split
  · exact .pure _
  · exact .throw _

theorem onlyWrites_markFailed (m : Moment) (id error : String) :
    OnlyWrites .builds (markFailed m id error) := by
  refine .bind (.rows _) fun rows => ?_
  dsimp only
  split
  · exact .bind (.throw _) fun _ => .write _
  · exact .write _

/-- The rows of builds after a request was written. -/
def withBuild (m : Moment) (itemId : String) (stat : Stat) (c : Constraints) (version : String)
    (status : BuildStatus) (result : Option BuildResult) (rows : List BuildRow) : List BuildRow :=
  upsertRow (fun row : BuildRow => decide (row.key = .of itemId stat c version))
    (rewritten m status result) (begun m itemId stat c version status result).row rows

/-- Builds stay orderly when one of them is written. -/
theorem Writable.orderly (hw : Writable itemId stat c status result) {rows : List BuildRow}
    (ho : BuildRow.Orderly rows) {m : Moment} (hfresh : m.fresh ∉ rows.map BuildRow.id) :
    BuildRow.Orderly (withBuild m itemId stat c version status result rows) where
  written := by
    refine ho.written.upsertRow ⟨hw.accepted, hw.answers, hw.completed⟩ fun b hb hkey => ?_
    obtain ⟨b', hb', hrow, -⟩ := hw.rewritten m hb (of_decide_eq_true hkey)
    exact ⟨b', hb', hrow⟩
  ids := nodup_map_upsertRow (fun _ _ => rfl) (fun _ => hfresh) ho.ids
  keys := by
    refine nodup_map_upsertRow (fun _ _ => rfl) (fun hnone hmem => ?_) ho.keys
    obtain ⟨row, hrow, hkey⟩ := List.mem_map.mp hmem
    exact List.find?_eq_none.mp hnone row hrow (decide_eq_true hkey)

/-- The row of a request after it was written. -/
def buildFor (m : Moment) (itemId : String) (stat : Stat) (c : Constraints) (version : String)
    (status : BuildStatus) (result : Option BuildResult) (rows : List BuildRow) : BuildRow :=
  ((rows.find? fun row => decide (row.key = .of itemId stat c version)).map
    (rewritten m status result)).getD (begun m itemId stat c version status result).row

theorem find?_withBuild (m : Moment) (itemId : String) (stat : Stat) (c : Constraints)
    (version : String) (status : BuildStatus) (result : Option BuildResult)
    (rows : List BuildRow) :
    (withBuild m itemId stat c version status result rows).find?
        (fun row => decide (row.key = .of itemId stat c version)) =
      some (buildFor m itemId stat c version status result rows) :=
  find?_upsertRow (fun _ h => h) (decide_eq_true rfl)

/-- The builds under other keys stay. -/
theorem find?_withBuild_of_ne {key : BuildKey} (hkey : .of itemId stat c version ≠ key)
    (m : Moment) (status : BuildStatus) (result : Option BuildResult) (rows : List BuildRow) :
    (withBuild m itemId stat c version status result rows).find? (fun row => row.key = key) =
      rows.find? fun row => row.key = key := by
  have hother : ∀ row : BuildRow, decide (row.key = .of itemId stat c version) = true →
      decide (row.key = key) = false := fun row hrow =>
    decide_eq_false fun heq => hkey ((of_decide_eq_true hrow).symm.trans heq)
  exact find?_upsertRow_of_disjoint (fun _ h => h) (decide_eq_true rfl) hother

/-- Writing a build replaces the rows, and answers with the id of the one for the request. -/
theorem upsertBuild_eq {rows : List BuildRow} (h : s.builds = some rows) (m : Moment)
    (itemId : String) (stat : Stat) (c : Constraints) (version : String) (status : BuildStatus)
    (result : Option BuildResult) :
    upsertBuild m itemId stat c version status result s =
      .ok ((buildFor m itemId stat c version status result rows).id,
        s.put .builds (some (withBuild m itemId stat c version status result rows))) := by
  have hrows : s.rows? .builds = some rows := h
  have hrun : upsertBuild m itemId stat c version status result s =
      (match (withBuild m itemId stat c version status result rows).find?
          (fun row : BuildRow => decide (row.key = BuildKey.of itemId stat c version)) with
        | some row => (pure row.id : Transaction String)
        | none => throw StoreError.noRows)
      (s.put .builds (some (withBuild m itemId stat c version status result rows))) := by
    rw [upsertBuild, rows_bind hrows]
    rfl
  rw [hrun, find?_withBuild]
  rfl

/-- Writing a build adds no id but the new one. -/
theorem buildIds_upsertBuild {rows : List BuildRow} (h : s.builds = some rows) (m : Moment)
    (itemId : String) (stat : Stat) (c : Constraints) (version : String) (status : BuildStatus)
    (result : Option BuildResult) :
    ((upsertBuild m itemId stat c version status result).call s).2.buildIds ⊆
      m.fresh :: s.buildIds := by
  have hwritten : (s.put .builds (some (withBuild m itemId stat c version status result
      rows))).buildIds ⊆ m.fresh :: s.buildIds := by
    have hsame : ∀ row, (rewritten m status result row).id = row.id := fun _ => rfl
    show (withBuild m itemId stat c version status result rows).map BuildRow.id ⊆ _
    rw [withBuild, map_upsertRow fun row _ => hsame row, Store.buildIds_eq h]
    split
    · exact List.subset_cons_self _ _
    · intro id hid
      rcases List.mem_append.mp hid with hid | hid
      · exact List.mem_cons_of_mem _ hid
      · rw [List.mem_singleton.mp hid]
        exact List.mem_cons_self
  rw [call_ok (upsertBuild_eq h m itemId stat c version status result)]
  exact hwritten

/-- **Writing a build**: it succeeds, and changes nothing but the build of the request, which is
found as it was written. -/
theorem upsertBuild_call (h : s.Orderly) {m : Moment} (hfresh : m.fresh ∉ s.buildIds)
    (hw : Writable itemId stat c status result) (version : String) :
    ∃ b s', (upsertBuild m itemId stat c version status result).call s = (.ok b.id, s') ∧
      s'.Orderly ∧ s'.findBuild itemId stat c version = .ok (some b) ∧
      (b.status = status ∧ b.result = result ∧ b.error = none) ∧
      s'.otherBuilds (.of itemId stat c version) = s.otherBuilds (.of itemId stat c version) ∧
      ∀ u, u ≠ .builds → s'.rows? u = s.rows? u := by
  obtain ⟨rows, hrows, ho⟩ := h.builds
  rw [Store.buildIds_eq hrows] at hfresh
  have ho' : BuildRow.Orderly (withBuild m itemId stat c version status result rows) :=
    hw.orderly ho hfresh
  have hfind := find?_withBuild m itemId stat c version status result rows
  -- The row that the call answers with is the record that was written.
  obtain ⟨b, hb, hrow, hfields⟩ : ∃ b : BuildRecord, b.Sound ∧
      buildFor m itemId stat c version status result rows = b.row ∧
        b.status = status ∧ b.result = result ∧ b.error = none := by
    rw [buildFor]
    cases hold : rows.find? fun row : BuildRow => decide (row.key = .of itemId stat c version) with
    | none => exact ⟨_, ⟨hw.accepted, hw.answers, hw.completed⟩, rfl, rfl, rfl, rfl⟩
    | some row =>
      obtain ⟨b, hb, rfl⟩ := ho.written.find? hold
      have hkey := List.find?_some hold
      obtain ⟨b', hb', hrewritten, hfields⟩ := hw.rewritten m hb (of_decide_eq_true hkey)
      exact ⟨b', hb', hrewritten.symm, hfields⟩
  rw [hrow] at hfind
  have hrun := upsertBuild_eq hrows m itemId stat c version status result
  rw [hrow] at hrun
  refine ⟨b, _, call_ok hrun, ⟨h.jobs, ⟨_, rfl, ho'⟩, h.subtrees⟩,
    (Store.findBuild_eq_some rfl ho').mpr ⟨hb, hfind⟩, hfields, ?_, fun u hu => ?_⟩
  · show some _ = Option.map _ s.builds
    rw [hrows]
    exact congrArg some (filter_upsertRow (fun _ h => h) (decide_eq_true rfl))
  · exact s.rows?_put_of_ne (Ne.symm hu) _

/-- Marking a build as being processed succeeds. -/
theorem markProcessing_call (h : s.Orderly) {m : Moment} (hfresh : m.fresh ∉ s.buildIds)
    (hc : c.validate = .ok ()) (itemId : String) (stat : Stat) (version : String) :
    ∃ b s', (markProcessing m itemId stat c version).call s = (.ok b.id, s') ∧ s'.Orderly ∧
      s'.findBuild itemId stat c version = .ok (some b) ∧ b.status = .processing ∧
      s'.otherBuilds (.of itemId stat c version) = s.otherBuilds (.of itemId stat c version) ∧
      ∀ u, u ≠ .builds → s'.rows? u = s.rows? u := by
  obtain ⟨b, s', hcall, ho, hfound, ⟨hstatus, -, -⟩, hothers, hrows⟩ :=
    upsertBuild_call h hfresh (writable_processing hc itemId stat) version
  exact ⟨b, s', hcall, ho, hfound, hstatus, hothers, hrows⟩

/-- Storing a result succeeds.  The key is made from the result, so it is that of the request. -/
theorem upsertCompleted_call (h : s.Orderly) {m : Moment} (hfresh : m.fresh ∉ s.buildIds)
    (hc : c.validate = .ok ()) {r : BuildResult} (hr : r.Answers itemId stat) (version : String) :
    ∃ b s', (upsertCompleted m c version r).call s = (.ok b.id, s') ∧ s'.Orderly ∧
      s'.findBuild itemId stat c version = .ok (some b) ∧
      (b.status = .completed ∧ b.result = some r) ∧
      s'.otherBuilds (.of itemId stat c version) = s.otherBuilds (.of itemId stat c version) ∧
      ∀ u, u ≠ .builds → s'.rows? u = s.rows? u := by
  obtain ⟨rfl, rfl, hfit⟩ := hr
  obtain ⟨b, s', hcall, ho, hfound, ⟨hstatus, hresult, -⟩, hothers, hrows⟩ :=
    upsertBuild_call h hfresh (writable_completed hc ⟨rfl, rfl, hfit⟩) version
  exact ⟨b, s', hcall, ho, hfound, ⟨hstatus, hresult⟩, hothers, hrows⟩

/-- The row of a build that has failed. -/
def failedRow (m : Moment) (error : String) (row : BuildRow) : BuildRow :=
  { row with status := BuildStatus.failed.keyword, error := some error, updatedAt := m.now }

/-- A build that has failed. -/
def spoiled (m : Moment) (error : String) (b : BuildRecord) : BuildRecord :=
  { b with status := .failed, error := some error, updatedAt := m.now }

theorem sound_spoiled (m : Moment) (error : String) {b : BuildRecord} (hb : b.Sound) :
    (spoiled m error b).Sound :=
  ⟨hb.accepted, hb.answers, fun h => absurd h nofun⟩

/-- Failing a build fails, or replaces the rows. -/
theorem markFailed_eq {rows : List BuildRow} (h : s.builds = some rows) (m : Moment)
    (id error : String) :
    let updated := updateRows (fun row : BuildRow => row.id == id) (failedRow m error) rows
    (∃ e, markFailed m id error s = .error e ∧ updated.2 = 0) ∨
      markFailed m id error s = .ok ((), s.put .builds (some updated.1)) := by
  intro updated
  have hrows : s.rows? .builds = some rows := h
  rw [markFailed, rows_bind hrows]
  show (∃ e, (if updated.2 = 0 then _ else _ : Transaction Unit) s = .error e ∧ _) ∨
    (if updated.2 = 0 then _ else _ : Transaction Unit) s = _
  by_cases hcount : updated.2 = 0
  · left
    rw [if_pos hcount]
    exact ⟨_, rfl, hcount⟩
  · right
    rw [if_neg hcount]
    rfl

/-- Builds stay orderly when one of them fails. -/
theorem spoiled_orderly {rows : List BuildRow} (ho : BuildRow.Orderly rows) (m : Moment)
    (id error : String) :
    BuildRow.Orderly (updateRows (fun row : BuildRow => row.id == id) (failedRow m error) rows).1 where
  written := ho.written.updateRows fun b hb _ => ⟨spoiled m error b, sound_spoiled m error hb, rfl⟩
  ids := by
    have hsame : ∀ row, (failedRow m error row).id = row.id := fun _ => rfl
    rw [map_updateRows hsame]
    exact ho.ids
  keys := by
    have hsame : ∀ row, (failedRow m error row).key = row.key := fun _ => rfl
    rw [map_updateRows hsame]
    exact ho.keys

/-- Failing a build adds no id. -/
theorem buildIds_markFailed {rows : List BuildRow} (h : s.builds = some rows) (m : Moment)
    (id error : String) : ((markFailed m id error).call s).2.buildIds = s.buildIds := by
  rcases markFailed_eq h m id error with ⟨e, herror, -⟩ | hok
  · rw [call, herror]
  · have hsame : ∀ row, (failedRow m error row).id = row.id := fun _ => rfl
    rw [call_ok hok]
    show (updateRows _ _ rows).1.map BuildRow.id = _
    rw [map_updateRows hsame, Store.buildIds_eq h]

theorem markFailed_orderly (h : s.Orderly) (m : Moment) (id error : String) :
    ((markFailed m id error).call s).2.Orderly := by
  obtain ⟨rows, hrows, ho⟩ := h.builds
  rcases markFailed_eq hrows m id error with ⟨e, herror, -⟩ | hok
  · rw [Transaction.call, herror]
    exact h
  · rw [call_ok hok]
    exact ⟨h.jobs, ⟨_, rfl, spoiled_orderly ho m id error⟩, h.subtrees⟩

/-- **Failing a build**: it succeeds for a build that is there, and changes nothing but the build. -/
theorem markFailed_call (h : s.Orderly) {b : BuildRecord}
    (hb : s.findBuild itemId stat c version = .ok (some b)) (m : Moment) (error : String) :
    ∃ s', (markFailed m b.id error).call s = (.ok (), s') ∧ s'.Orderly ∧
      s'.findBuild itemId stat c version = .ok (some (spoiled m error b)) ∧
      s'.otherBuilds (.of itemId stat c version) = s.otherBuilds (.of itemId stat c version) ∧
      ∀ u, u ≠ .builds → s'.rows? u = s.rows? u := by
  obtain ⟨rows, hrows, ho⟩ := h.builds
  obtain ⟨hsound, hfind⟩ := (Store.findBuild_eq_some hrows ho).mp hb
  have hmem := List.mem_of_find?_eq_some hfind
  have hid : (fun row : BuildRow => row.id == b.id) b.row = true := beq_self_eq_true b.id
  have hcount := @updateRows_count_ne_zero _ (failedRow m error) rows
    (fun row : BuildRow => row.id == b.id) _ hmem hid
  rcases markFailed_eq hrows m b.id error with ⟨e, -, hzero⟩ | hok
  · exact absurd hzero hcount
  have ho' := spoiled_orderly ho m b.id error
  refine ⟨_, call_ok hok, ⟨h.jobs, ⟨_, rfl, ho'⟩, h.subtrees⟩, ?_, ?_, fun u hu => ?_⟩
  · refine (Store.findBuild_eq_some rfl ho').mpr ⟨sound_spoiled m error hsound, ?_⟩
    have hsame : ∀ row, decide ((failedRow m error row).key = .of itemId stat c version) =
        decide (row.key = .of itemId stat c version) := fun _ => rfl
    rw [find?_updateRows hsame, hfind, Option.map_some, if_pos hid]
    rfl
  · show some _ = Option.map _ s.builds
    rw [hrows, Option.map_some]
    refine congrArg some (filter_updateRows (fun row hrow hkept => ?_) fun _ => rfl)
    -- Only the build has its id, and it is the one for the request.
    rw [beq_eq_false_iff_ne]
    intro hid
    obtain rfl := List.inj_on_of_nodup_map ho.ids hrow hmem hid
    have hkey := List.find?_some hfind
    rw [hkey] at hkept
    exact absurd hkept nofun
  · exact s.rows?_put_of_ne (Ne.symm hu) _

end Builds

/-! ### Kept results -/

/-- The row of a request with a result that reaches no less deep. -/
def deepened (e : SubtreeEntry) (row : SubtreeRow) : SubtreeRow :=
  if row.depth ≤ e.depth then { row with depth := e.depth, result := e.result.toJson.print }
  else row

theorem le_depth_deepened (e : SubtreeEntry) (row : SubtreeRow) :
    (e.depth : Int) ≤ (deepened e row).depth := by
  unfold deepened
  split
  · exact Int.le_refl _
  · next h => exact Int.le_of_lt (Int.not_le.mp h)

/-- Kept results stay written when one of them is written. -/
theorem written_deepened {e : SubtreeEntry} (he : e.Sound) {rows : List SubtreeRow}
    (ho : Written SubtreeEntry.row SubtreeEntry.Sound rows) :
    Written SubtreeEntry.row SubtreeEntry.Sound
      (upsertRow (fun row => decide (row.Matches e.itemId e.stat e.constraints e.version))
        (deepened e) e.row rows) := by
  refine ho.upsertRow he fun a ha hkey => ?_
  obtain ⟨hitem, hstat, -, -⟩ := of_decide_eq_true hkey
  by_cases hdepth : (a.depth : Int) ≤ e.depth
  · refine ⟨{ a with depth := e.depth, result := e.result }, ⟨he.depth, ?_⟩, ?_⟩
    · have hitem : a.itemId = e.itemId := hitem
      have hstat : a.stat = e.stat := hstat
      show e.result.Answers a.itemId a.stat
      rw [hitem, hstat]
      exact he.answers
    · exact (if_pos hdepth).symm
  · exact ⟨a, ha, (if_neg hdepth).symm⟩

/-- What is found is also found by a condition that only it has to meet besides. -/
theorem find?_and {α : Type} {p q : α → Bool} {rows : List α} {row : α}
    (h : rows.find? p = some row) (hq : q row = true) :
    rows.find? (fun r => p r && q r) = some row := by
  obtain ⟨hp, before, after, rfl, hbefore⟩ := List.find?_eq_some_iff_append.mp h
  refine List.find?_eq_some_iff_append.mpr ⟨by simp [hp, hq], before, after, rfl, fun r hr => ?_⟩
  have := hbefore r hr
  simp only [Bool.not_eq_true'] at this ⊢
  rw [this, Bool.false_and]

/-- The kept results after one was written. -/
def withSubtree (e : SubtreeEntry) (rows : List SubtreeRow) : List SubtreeRow :=
  upsertRow (fun row => decide (row.Matches e.itemId e.stat e.constraints e.version)) (deepened e)
    e.row rows

/-- A row stays one of its request. -/
theorem matches_deepened (e : SubtreeEntry) {row : SubtreeRow} {itemId : String} {stat : Stat}
    {c : Constraints} {version : String}
    (h : decide (row.Matches itemId stat c version) = true) :
    decide ((deepened e row).Matches itemId stat c version) = true := by
  unfold deepened
  split <;> exact h

/-- What is found for a request after a result was kept for it. -/
theorem find?_withSubtree (e : SubtreeEntry) (rows : List SubtreeRow) :
    (withSubtree e rows).find?
        (fun row => decide (row.Matches e.itemId e.stat e.constraints e.version)) =
      some (((rows.find? fun row =>
        decide (row.Matches e.itemId e.stat e.constraints e.version)).map (deepened e)).getD
          e.row) :=
  find?_upsertRow (fun _ => matches_deepened e) (decide_eq_true ⟨rfl, rfl, rfl, rfl⟩)

/-- What is found for another request stays. -/
theorem find?_withSubtree_of_disjoint (e : SubtreeEntry) {sought : SubtreeRow → Bool}
    (hsought : ∀ row : SubtreeRow, row.Matches e.itemId e.stat e.constraints e.version →
      sought row = false) (rows : List SubtreeRow) :
    (withSubtree e rows).find? sought = rows.find? sought :=
  find?_upsertRow_of_disjoint (fun _ => matches_deepened e) (decide_eq_true ⟨rfl, rfl, rfl, rfl⟩)
    fun row hrow => hsought row (of_decide_eq_true hrow)

theorem upsertSubtree_eq {rows : List SubtreeRow} (h : s.subtrees = some rows)
    (e : SubtreeEntry) :
    upsertSubtree e s = .ok ((), s.put .subtrees (some (withSubtree e rows))) := by
  have hrows : s.rows? .subtrees = some rows := h
  rw [upsertSubtree, rows_bind hrows]
  rfl

/-- Keeping a result writes the kept results only. -/
theorem onlyWrites_upsertSubtree (e : SubtreeEntry) : OnlyWrites .subtrees (upsertSubtree e) :=
  .bind (.rows _) fun _ => .write _

/-- **Keeping a result**: it succeeds, and changes nothing but the result kept for the request, which
reaches the depth afterwards. -/
theorem upsertSubtree_call (h : s.Orderly) {e : SubtreeEntry} (he : e.Sound) :
    ∃ s', (upsertSubtree e).call s = (.ok (), s') ∧ s'.Orderly ∧
      (∃ e', s'.subtree? e.itemId e.stat e.constraints e.version e.depth = .ok (some e') ∧
        e.depth ≤ e'.depth) ∧
      s'.otherSubtrees e.itemId e.stat e.constraints e.version =
        s.otherSubtrees e.itemId e.stat e.constraints e.version ∧
      ∀ u, u ≠ .subtrees → s'.rows? u = s.rows? u := by
  obtain ⟨rows, hrows, ho⟩ := h.subtrees
  have ho' : Written SubtreeEntry.row SubtreeEntry.Sound (withSubtree e rows) :=
    written_deepened he ho
  -- The row that is found for the request reaches the depth, whether it is old or new.
  obtain ⟨row, hfind, hdepth⟩ : ∃ row, (withSubtree e rows).find?
        (fun row => decide (row.Matches e.itemId e.stat e.constraints e.version)) = some row ∧
      (e.depth : Int) ≤ row.depth := by
    refine ⟨_, find?_withSubtree e rows, ?_⟩
    cases rows.find? fun row =>
        decide (row.Matches e.itemId e.stat e.constraints e.version) with
    | none => exact Int.le_refl _
    | some old => exact le_depth_deepened e old
  refine ⟨_, call_ok (upsertSubtree_eq hrows e), ⟨h.jobs, h.builds, ⟨_, rfl, ho'⟩⟩, ?_, ?_,
    fun u hu => ?_⟩
  · have hboth : (withSubtree e rows).find? (fun row =>
        decide (row.Matches e.itemId e.stat e.constraints e.version ∧
          (e.depth : Int) ≤ row.depth)) = some row := by
      simp only [Bool.decide_and]
      exact find?_and hfind (decide_eq_true hdepth)
    have hput : (s.put .subtrees (some (withSubtree e rows))).subtrees =
      some (withSubtree e rows) := rfl
    obtain ⟨e', he', -, hle⟩ := Store.subtree?_of_find? hput ho' hboth
    exact ⟨e', he', hle⟩
  · show some _ = Option.map _ s.subtrees
    rw [hrows]
    exact congrArg some (filter_upsertRow (fun _ => matches_deepened e)
      (decide_eq_true ⟨rfl, rfl, rfl, rfl⟩))
  · exact s.rows?_put_of_ne (Ne.symm hu) _

/-! ### The catalogue -/

/-- A store is orderly if it differs from an orderly one in a table of the catalogue only. -/
theorem OnlyWrites.orderly {α : Type} {t : Table} {action : Transaction α}
    (haction : OnlyWrites t action) (hjobs : t ≠ .jobs) (hbuilds : t ≠ .builds)
    (hsubtrees : t ≠ .subtrees) (h : s.Orderly) : (action.call s).2.Orderly :=
  h.congr (haction.call s hjobs.symm) (haction.call s hbuilds.symm) (haction.call s hsubtrees.symm)

theorem onlyWrites_upsertItem (item : Item) : OnlyWrites .items (upsertItem item) :=
  .bind (.rows _) fun _ => .write _

theorem onlyWrites_requireRow {α : Type} {t : Table} (rows : List α) (found : α → Bool) :
    OnlyWrites t (requireRow rows found) := by
  unfold requireRow
  split
  · exact .pure ()
  · exact .throw _

theorem onlyWrites_referredRows {t : Table} (u : Table) : OnlyWrites t (referredRows u) := by
  refine .bind .get fun s => ?_
  split
  · exact .pure _
  · exact .throw _

theorem onlyWrites_upsertSlot (ownerId slotId name : String) (position : Int) :
    OnlyWrites .slots (upsertSlot ownerId slotId name position) :=
  .bind (.rows _) fun _ => .bind (onlyWrites_referredRows _) fun _ =>
    .bind (onlyWrites_requireRow _ _) fun _ => .write _

theorem onlyWrites_allowItem (slotId itemId : String) (position : Int) :
    OnlyWrites .allowed (allowItem slotId itemId position) :=
  .bind (.rows _) fun _ => .bind (onlyWrites_referredRows _) fun _ =>
    .bind (onlyWrites_referredRows _) fun _ => .bind (onlyWrites_requireRow _ _) fun _ =>
      .bind (onlyWrites_requireRow _ _) fun _ => .write _

theorem onlyWrites_addConflict (itemId otherId : String) :
    OnlyWrites .conflicts (addConflict itemId otherId) :=
  .bind (.rows _) fun _ => .write _

theorem onlyWrites_replaceOffers (itemId : String) (offers : List Offer) :
    OnlyWrites .offers (replaceOffers itemId offers) :=
  .bind (.rows _) fun _ => .write _

end Transaction

end Gunsmith
