/-
  The life of a job.

  Whatever calls are made on an empty queue, in whatever order and with whatever arguments,
  a job that was entered stays in its row.  Its state moves from waiting to processing, and
  from either of these to one of the two states in which it ends; it never moves on from
  there (`JobStatus.Moves`).  The other columns go with the state (`JobRow.Tells`): there is
  a time of start if the row has ever been processing, a time of completion if it has ended,
  and an error if it has failed.

  `QueueCall.Lifecycle` collects what holds after a run, and `lifecycle` proves it.  The
  invariant is `JobRow.Tells`, which one advance of a row preserves
  (`JobRow.Tells.advance`) and with it every call.
-/
import Gunsmith.Proofs.Queue.Calls

namespace Gunsmith

/-! ### States -/

/-- The moves from one state to another. -/
inductive JobStatus.Moves : JobStatus → JobStatus → Prop
  | process : Moves .queued .processing
  | complete {source : JobStatus} (h : ¬ source.Terminal) : Moves source .completed
  | fail {source : JobStatus} (h : ¬ source.Terminal) : Moves source .failed

theorem JobUpdate.moves {u : JobUpdate} {source : JobStatus} (h : source ∈ u.sources) :
    source.Moves u.target := by
  have hopen := JobUpdate.not_terminal_of_mem_sources h
  cases u with
  | process =>
    obtain rfl := List.mem_singleton.mp h
    exact JobStatus.Moves.process
  | complete => exact JobStatus.Moves.complete hopen
  | fail error => exact JobStatus.Moves.fail hopen

namespace JobRow

variable {a b row : JobRow} {status : JobStatus} {P : Prop}

/-- The state of an advancing row stays, or makes one of the moves. -/
theorem Advances.moves (h : a.Advances b) :
    b.status = a.status ∨ ∃ source target, JobStatus.Moves source target ∧
      a.status = source.keyword ∧ b.status = target.keyword := by
  cases h with
  | stay => exact Or.inl rfl
  | move u now hsource =>
    obtain ⟨source, hmem, hkeyword⟩ := List.mem_map.mp hsource
    exact Or.inr ⟨source, u.target, JobUpdate.moves hmem, hkeyword.symm, u.status_apply now a⟩

/-- The columns of a row that go with its state, where `P` tells whether the row has been
processing. -/
structure Tells (row : JobRow) (status : JobStatus) (P : Prop) : Prop where
  state : row.status = status.keyword
  startedAt : row.startedAt.isSome ↔ P
  completedAt : row.completedAt.isSome ↔ status.Terminal
  error : row.error.isSome ↔ status = .failed

/-- What is told stays true when a row advances. -/
theorem Tells.advance (h : a.Tells status P) (hP : status = .processing → P)
    (hab : a.Advances b) : ∃ status', b.Tells status' (P ∨ status' = .processing) := by
  cases hab with
  | stay =>
    refine ⟨status, h.state, h.startedAt.trans ?_, h.completedAt, h.error⟩
    exact ⟨Or.inl, fun hor => hor.elim (fun hp => hp) hP⟩
  | move u now hsource =>
    obtain ⟨source, hmem, hkeyword⟩ := List.mem_map.mp hsource
    obtain rfl := JobStatus.keyword_injective (hkeyword.trans h.state)
    have hopen := JobUpdate.not_terminal_of_mem_sources hmem
    have hcompleted : ¬ a.completedAt.isSome := fun hsome => hopen (h.completedAt.mp hsome)
    have herror : ¬ a.error.isSome := by
      intro hsome
      rw [h.error.mp hsome] at hopen
      exact hopen trivial
    refine ⟨u.target, u.status_apply now a, ?_, ?_, ?_⟩
    · cases u with
      | process => exact ⟨fun _ => Or.inr rfl, fun _ => rfl⟩
      | complete => exact h.startedAt.trans ⟨Or.inl, fun hor => hor.elim (fun hp => hp) nofun⟩
      | fail error => exact h.startedAt.trans ⟨Or.inl, fun hor => hor.elim (fun hp => hp) nofun⟩
    · cases u with
      | process => exact ⟨fun hsome => absurd hsome hcompleted, fun hend => hend.elim⟩
      | complete => exact ⟨fun _ => trivial, fun _ => rfl⟩
      | fail error => exact ⟨fun _ => trivial, fun _ => rfl⟩
    · cases u with
      | process => exact ⟨fun hsome => absurd hsome herror, nofun⟩
      | complete => exact ⟨fun hsome => absurd hsome herror, nofun⟩
      | fail error => exact ⟨fun _ => rfl, fun _ => rfl⟩

/-- A row that was just entered tells that its job waits. -/
theorem tells_entered (m : Moment) (itemId : String) (stat : Stat) (c : Constraints)
    (priority : Int) (hP : ¬ P) :
    (Transaction.entered m itemId stat c priority).row.Tells .queued P where
  state := rfl
  startedAt := ⟨nofun, fun h => absurd h hP⟩
  completedAt := ⟨nofun, fun hend => hend.elim⟩
  error := ⟨nofun, nofun⟩

/-! ### Counting -/

/-- Every row is counted in one state, if each is in one of the states. -/
theorem sum_length_filter {rows : List JobRow}
    (h : ∀ row ∈ rows, ∃ status : JobStatus, row.status = status.keyword) :
    (rows.filter fun row => row.status == JobStatus.queued.keyword).length +
      (rows.filter fun row => row.status == JobStatus.processing.keyword).length +
      (rows.filter fun row => row.status == JobStatus.completed.keyword).length +
      (rows.filter fun row => row.status == JobStatus.failed.keyword).length = rows.length := by
  induction rows with
  | nil => rfl
  | cons row rows ih =>
    have ih := ih fun other hother => h other (List.mem_cons_of_mem _ hother)
    obtain ⟨status, hstatus⟩ := h row List.mem_cons_self
    have hcount : ∀ other : JobStatus,
        ((row :: rows).filter fun row => row.status == other.keyword).length =
          (rows.filter fun row => row.status == other.keyword).length +
            if status = other then 1 else 0 := by
      intro other
      rw [List.filter_cons, hstatus]
      by_cases heq : status = other
      · rw [if_pos (beq_iff_eq.mpr (congrArg _ heq)), if_pos heq, List.length_cons]
      · rw [if_neg fun hbeq => heq (JobStatus.keyword_injective (beq_iff_eq.mp hbeq)), if_neg heq,
          Nat.add_zero]
    rw [hcount, hcount, hcount, hcount, List.length_cons]
    cases status <;> simp only [reduceCtorEq, if_true, if_false] <;> omega

end JobRow

/-! ### Runs -/

namespace QueueCall

/-- The row at the position was processing after some of the calls. -/
def HasProcessed (start : Store) (calls : List QueueCall) (i : Nat) : Prop :=
  ∃ before later row, calls = before ++ later ∧ (after before start).jobRows[i]? = some row ∧
    row.status = JobStatus.processing.keyword

variable {start : Store} {calls : List QueueCall} {call : QueueCall} {i : Nat} {row : JobRow}

/-- One call more may be the one that brings the row there. -/
theorem hasProcessed_append_singleton :
    HasProcessed start (calls ++ [call]) i ↔
      HasProcessed start calls i ∨ ∃ row,
        (after (calls ++ [call]) start).jobRows[i]? = some row ∧
          row.status = JobStatus.processing.keyword := by
  constructor
  · rintro ⟨before, later, row, hcalls, hrow, hstatus⟩
    rcases List.eq_nil_or_concat later with rfl | ⟨later, last, rfl⟩
    · rw [List.append_nil] at hcalls
      exact Or.inr ⟨row, hcalls ▸ hrow, hstatus⟩
    · rw [List.concat_eq_append, ← List.append_assoc] at hcalls
      obtain ⟨rfl, -⟩ := List.append_inj' hcalls rfl
      exact Or.inl ⟨before, later, row, rfl, hrow, hstatus⟩
  · rintro (⟨before, later, row, rfl, hrow, hstatus⟩ | ⟨row, hrow, hstatus⟩)
    · exact ⟨before, later ++ [call], row, List.append_assoc .., hrow, hstatus⟩
    · exact ⟨calls ++ [call], [], row, (List.append_nil _).symm, hrow, hstatus⟩

/-- A row that is not there has not been processing. -/
theorem not_hasProcessed_of_none {rows : List JobRow} (h : start.JobTable rows)
    (hnone : (after calls start).jobRows[i]? = none) : ¬ HasProcessed start calls i := by
  rintro ⟨before, later, row, rfl, hrow, -⟩
  obtain ⟨row', hrow', -⟩ := h.advances_between hrow later
  rw [hrow'] at hnone
  exact absurd hnone nofun

/-- **The columns of every row tell its state**, after any calls on an empty queue. -/
theorem tells_after (h : start.jobs = some []) (hrow : (after calls start).jobRows[i]? = some row) :
    ∃ status, row.Tells status (HasProcessed start calls i) := by
  have htable : start.JobTable [] := ⟨h, List.nodup_nil⟩
  -- The last call is split off, because `HasProcessed` speaks about all calls that came before.
  induction calls using List.reverseRecOn generalizing row with
  | nil =>
    rw [after_nil, htable.jobRows_eq] at hrow
    exact absurd hrow nofun
  | append_singleton calls call ih =>
    obtain ⟨rows', heffect, htable'⟩ := run_effect (htable.after calls) call
    have hafter : (after (calls ++ [call]) start).jobRows = rows' := by
      rw [after_append]
      exact htable'.jobRows_eq
    have hprocessed : HasProcessed start (calls ++ [call]) i ↔
        HasProcessed start calls i ∨ row.status = JobStatus.processing.keyword := by
      rw [hasProcessed_append_singleton, hrow]
      refine or_congr_right ⟨?_, fun hstatus => ⟨row, rfl, hstatus⟩⟩
      rintro ⟨other, hother, hstatus⟩
      exact Option.some.inj hother ▸ hstatus
    rw [hafter] at hrow
    cases hold : (after calls start).jobRows[i]? with
    | none =>
      -- The row was entered by the last call.
      obtain ⟨m, itemId, stat, c, priority, rfl⟩ := heffect.entered_of_none hold hrow
      refine ⟨.queued, JobRow.tells_entered m itemId stat c priority fun hmem => ?_⟩
      rcases hprocessed.mp hmem with hmem | hstatus
      · exact not_hasProcessed_of_none htable hold hmem
      · have hkeyword : JobStatus.queued.keyword = JobStatus.processing.keyword := hstatus
        exact absurd (JobStatus.keyword_injective hkeyword) nofun
    | some old =>
      -- The row was there, and the last call has at most moved it on.
      obtain ⟨row', hrow', hadvance⟩ := heffect.advances hold
      obtain rfl := Option.some.inj (hrow'.symm.trans hrow)
      obtain ⟨status, htells⟩ := ih hold
      have hnow : status = .processing → HasProcessed start calls i := fun heq =>
        ⟨calls, [], old, (List.append_nil _).symm, hold, heq ▸ htells.state⟩
      obtain ⟨status', htells'⟩ := htells.advance hnow hadvance
      refine ⟨status', htells'.state, htells'.startedAt.trans ?_, htells'.completedAt,
        htells'.error⟩
      rw [hprocessed, htells'.state]
      exact or_congr_right ⟨congrArg _, fun heq => JobStatus.keyword_injective heq⟩

/-- The counts of a table of jobs, if they fit 32 bits. -/
theorem queueStats_eq {s : Store} {rows : List JobRow} (h : s.jobs = some rows)
    (hfit : rows.length < UInt32.size) :
    s.queueStats = .ok
      ⟨(rows.filter fun row => row.status == JobStatus.queued.keyword).length,
        (rows.filter fun row => row.status == JobStatus.processing.keyword).length,
        (rows.filter fun row => row.status == JobStatus.completed.keyword).length,
        (rows.filter fun row => row.status == JobStatus.failed.keyword).length⟩ := by
  have hrows : s.rows .jobs = .ok rows := Store.rows_eq h
  have hcount : ∀ status : JobStatus,
      (rows.filter fun row => row.status == status.keyword).length % UInt32.size =
        (rows.filter fun row => row.status == status.keyword).length := fun status =>
    Nat.mod_eq_of_lt ((List.length_filter_le _ _).trans_lt hfit)
  rw [Store.queueStats, hrows]
  show Except.ok (QueueStats.mk _ _ _ _) = _
  dsimp only
  rw [hcount, hcount, hcount, hcount]

/-- There is a row for each job that was entered. -/
theorem length_after (h : start.jobs = some []) (calls : List QueueCall) :
    (after calls start).jobRows.length = (entries calls start).length := by
  have hempty : start.JobTable [] := ⟨h, List.nodup_nil⟩
  rw [← List.length_map JobRow.id, hempty.ids_after calls]
  rfl

/-- Every row is in one of the states, after any calls on an empty queue. -/
theorem exists_status_after (h : start.jobs = some []) (hrow : row ∈ (after calls start).jobRows) :
    ∃ status : JobStatus, row.status = status.keyword := by
  obtain ⟨i, hi⟩ := List.mem_iff_getElem?.mp hrow
  obtain ⟨status, htells⟩ := tells_after h hi
  exact ⟨status, htells.state⟩

/-- What holds after some calls on an empty queue. -/
structure Lifecycle (start : Store) (calls : List QueueCall) : Prop where
  /-- There is a table of jobs, whose ids are keys. -/
  table : (after calls start).JobTable (after calls start).jobRows
  /-- No row ever disappears, and it stays the row of the same request. -/
  kept : ∀ before later (i : Nat) (row : JobRow), calls = before ++ later →
    (after before start).jobRows[i]? = some row →
      ∃ row', (after calls start).jobRows[i]? = some row' ∧ row.SameRequest row'
  /-- In every call the state of a row stays or makes one of the moves. -/
  moves : ∀ before call later (i : Nat) (row row' : JobRow), calls = before ++ call :: later →
    (after before start).jobRows[i]? = some row →
      (after (before ++ [call]) start).jobRows[i]? = some row' →
        row'.status = row.status ∨ ∃ source target, JobStatus.Moves source target ∧
          row.status = source.keyword ∧ row'.status = target.keyword
  /-- A row that has ended stays as it is. -/
  final : ∀ before later (i : Nat) (row : JobRow) (status : JobStatus), calls = before ++ later →
    (after before start).jobRows[i]? = some row → row.status = status.keyword →
      status.Terminal → (after calls start).jobRows[i]? = some row
  /-- The other columns of a row go with its state. -/
  tells : ∀ (i : Nat) (row : JobRow), (after calls start).jobRows[i]? = some row →
    ∃ status, row.Tells status (HasProcessed start calls i)
  /-- A call that fails changes nothing. -/
  unchanged : ∀ (call : QueueCall) e, (call.run (after calls start)).1 = .error e →
    (call.run (after calls start)).2 = after calls start
  /-- To move on a job that there is not fails for this reason. -/
  unknown : ∀ m id u, (∀ row ∈ (after calls start).jobRows, row.id ≠ id) →
    ((update m id u).run (after calls start)).1 = .error (.notFound "evaluation_queue" id)
  /-- To move on a job from a state in which this is not allowed fails, and names the state. -/
  refused : ∀ m (u : JobUpdate), ∀ row ∈ (after calls start).jobRows,
    row.status ∉ u.sources.map JobStatus.keyword →
      ((update m row.id u).run (after calls start)).1 =
        .error (.badTransition row.id row.status u.target.keyword)
  /-- To move on a job otherwise succeeds. -/
  moved : ∀ m (u : JobUpdate), ∀ row ∈ (after calls start).jobRows,
    row.status ∈ u.sources.map JobStatus.keyword →
      ((update m row.id u).run (after calls start)).1 = .ok .moved
  /-- Each row is counted once, in its state, and there is one for each job that was entered. -/
  counted : (entries calls start).length < UInt32.size →
    ∃ stats, (after calls start).queueStats = .ok stats ∧
      stats = ⟨((after calls start).jobRows.filter (·.status == "QUEUED")).length,
        ((after calls start).jobRows.filter (·.status == "PROCESSING")).length,
        ((after calls start).jobRows.filter (·.status == "COMPLETED")).length,
        ((after calls start).jobRows.filter (·.status == "FAILED")).length⟩ ∧
      stats.queued + stats.processing + stats.completed + stats.failed =
        (entries calls start).length

/-- **The life of a job**: after any calls on an empty queue its rows are kept, have moved along
the states, and tell it. -/
theorem lifecycle {start : Store} (h : start.jobs = some []) (calls : List QueueCall) :
    Lifecycle start calls := by
  have hempty : start.JobTable [] := ⟨h, List.nodup_nil⟩
  have htable := hempty.after calls
  exact {
    table := htable
    kept := by
      rintro before later i row rfl hrow
      obtain ⟨row', hrow', hadvances⟩ := hempty.advances_between hrow later
      exact ⟨row', hrow', JobRow.sameRequest_of_advances hadvances⟩
    moves := by
      rintro before call later i row row' - hrow hrow'
      obtain ⟨rows', heffect, htable'⟩ := run_effect (hempty.after before) call
      obtain ⟨row'', hrow'', hadvance⟩ := heffect.advances hrow
      rw [after_append, after_cons, after_nil, htable'.jobRows_eq, hrow''] at hrow'
      rw [← Option.some.inj hrow']
      exact hadvance.moves
    final := by
      rintro before later i row status rfl hrow hstatus hend
      obtain ⟨row', hrow', hadvances⟩ := hempty.advances_between hrow later
      rw [hrow', JobRow.eq_of_advances_of_terminal hadvances hstatus hend]
    tells := fun i row hrow => tells_after h hrow
    unchanged := fun call e herror => run_of_error herror
    unknown := fun m id u hid => congrArg Prod.fst (run_update_unknown htable.jobs hid m u)
    refused := fun m u row hrow hsource =>
      congrArg Prod.fst (run_update_refused htable hrow m hsource)
    moved := by
      intro m u row hrow hsource
      obtain ⟨i, hi⟩ := List.mem_iff_getElem?.mp hrow
      exact congrArg Prod.fst (run_update_moved htable hi m hsource)
    counted := by
      intro hfit
      have hlength := length_after h calls
      refine ⟨_, queueStats_eq htable.jobs (hlength ▸ hfit), rfl, ?_⟩
      exact (JobRow.sum_length_filter fun _ hrow => exists_status_after h hrow).trans hlength }

/-- Two jobs are entered, the second one fails, and it cannot be completed any more. -/
def sampleRun : List QueueCall :=
  [.enqueue ⟨"1", "a"⟩ "w" .recoil (.ofLevels (.uniform 4)) 1,
    .enqueue ⟨"2", "b"⟩ "w" .ergonomics (.ofLevels (.uniform 4)) 2,
    .update ⟨"3", ""⟩ "b" (.fail "boom"),
    .update ⟨"4", ""⟩ "b" .complete]

theorem lifecycle_sample : Store.fresh.jobs = some [] ∧
    entries sampleRun Store.fresh = ["a", "b"] ∧
    (after sampleRun Store.fresh).jobRows.map JobRow.status = ["QUEUED", "FAILED"] ∧
    Lifecycle Store.fresh sampleRun :=
  ⟨rfl, rfl, rfl, lifecycle rfl sampleRun⟩

end QueueCall

end Gunsmith
