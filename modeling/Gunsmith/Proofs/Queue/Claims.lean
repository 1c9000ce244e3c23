/-
  Claims are ordered, and a job is claimed once.

  Whatever the queue holds, rows that do not decode included, the first in line decides what
  a claim does.  If it decodes then its row alone changes, and the answer is what the row
  holds from now on; if it does not then the claim fails, and nothing changes.

  Along a run of calls this means that a claim answers a job that has waited ever since it
  was entered, that no claim before answered, and that no other waiting job should have
  come before (`QueueCall.Served`).  The first two hold because a row that waits has not
  advanced (`JobRow.eq_of_advances_of_waits`): had the job been claimed or moved on, its row
  could not wait again.

  `QueueCall.FairClaims` collects what holds of the claims, and `fairClaims` proves it.
-/
import Gunsmith.Proofs.Queue.Calls

namespace Gunsmith

namespace QueueCall

/-! ### What a claim answers -/

section Claim

variable {s : Store} {rows : List JobRow} {m : Moment}

/-- The job that a claim answers is the one that was first in line, and its row is moved on. -/
theorem claimed_of_run (h : s.JobTable rows) {job : Job}
    (hrun : ((claim m).run s).1 = .ok (.claimed (some job))) :
    ∃ i row, JobRow.FirstInLine rows i row ∧ job.id = row.id ∧
      ((claim m).run s).2.JobTable (rows.set i (JobUpdate.process.apply m.now row)) := by
  obtain ⟨rows', heffect, htable⟩ := run_effect h (claim m)
  rw [hrun] at heffect
  cases heffect with
  | claimed hfirst hjob => exact ⟨_, _, hfirst, hjob.id, htable⟩

/-- A claim answers no job if and only if nobody waits. -/
theorem run_claim_none (h : s.JobTable rows) :
    ((claim m).run s).1 = .ok (.claimed none) ↔ ∀ row ∈ rows, ¬ row.Waits := by
  constructor
  · intro hrun
    obtain ⟨rows', heffect, -⟩ := run_effect h (claim m)
    rw [hrun] at heffect
    cases heffect with
    | idle hidle => exact hidle
  · intro hidle
    rw [run, answering_ok (claim_idle h.jobs hidle m)]

end Claim

/-! ### Claims along a run -/

section Served

variable {start : Store} {rows : List JobRow} {i : Nat} {row : JobRow}

/-- A row that waits after some calls is what it was before. -/
theorem waited_of_waits (h : start.JobTable rows) {before later : List QueueCall} {old : JobRow}
    (hold : (after before start).jobRows[i]? = some old)
    (hrow : (after (before ++ later) start).jobRows[i]? = some row) (hwaits : row.Waits) :
    old = row := by
  obtain ⟨row', hrow', hadvances⟩ := h.advances_between hold later
  rw [hrow'] at hrow
  obtain rfl := Option.some.inj hrow
  exact JobRow.eq_of_advances_of_waits hadvances hwaits

/-- No claim before answered a job whose row waits. -/
theorem unclaimed_of_waits (h : start.JobTable rows) {before later : List QueueCall} {m : Moment}
    {job : Job} (hrun : ((claim m).run (after before start)).1 = .ok (.claimed (some job)))
    (hrow : (after (before ++ claim m :: later) start).jobRows[i]? = some row)
    (hwaits : row.Waits) : job.id ≠ row.id := by
  intro hid
  obtain ⟨j, old, hfirst, hold, htable⟩ := claimed_of_run (h.after before) hrun
  -- The row that was claimed is found where it was, as the row of the same job.
  have hclaimed := List.getElem?_set_self (a := JobUpdate.process.apply m.now old)
    (List.getElem?_eq_some_iff.mp hfirst.stands).1
  obtain ⟨row', hrow', hadvances⟩ := htable.advances_after hclaimed later
  rw [after_append, after_cons] at hrow
  have hid' : row'.id = row.id := by
    rw [(JobRow.sameRequest_of_advances hadvances).id, JobUpdate.id_apply, ← hold, hid]
  obtain rfl := (htable.after later).position_unique hrow hrow' hid'
  obtain rfl := Option.some.inj (hrow.symm.trans hrow')
  -- So it waits, although it was moved on.
  obtain rfl := JobRow.eq_of_advances_of_waits hadvances hwaits
  exact JobUpdate.process.not_waits_apply m.now old hwaits

/-- The row at a position after some calls is the one to be claimed. -/
structure Served (start : Store) (calls : List QueueCall) (i : Nat) (row : JobRow) : Prop where
  stands : (after calls start).jobRows[i]? = some row
  /-- The job has never been claimed, completed or failed: its row has waited all the time. -/
  waited : ∀ before later (old : JobRow), calls = before ++ later →
    (after before start).jobRows[i]? = some old → old = row ∧ old.Waits
  /-- No claim before answered the job. -/
  unclaimed : ∀ before m later (job : Job), calls = before ++ claim m :: later →
    ((claim m).run (after before start)).1 = .ok (.claimed (some job)) → job.id ≠ row.id
  /-- No other job that waits has a higher priority. -/
  urgent : ∀ (j : Nat) (other : JobRow), (after calls start).jobRows[j]? = some other → other.Waits →
    other.priority ≤ row.priority
  /-- No other job that waits has the same priority and was entered earlier, if the times of
  creation do not decrease. -/
  early : ((after calls start).jobRows.map JobRow.createdAt).Pairwise (· ≤ ·) →
    ∀ (j : Nat) (other : JobRow), (after calls start).jobRows[j]? = some other → other.Waits →
      other.priority = row.priority → i ≤ j

/-- Rows that were entered in the order of their times are claimed in this order. -/
theorem le_of_before {other : JobRow} {j : Nat}
    (hsorted : (rows.map JobRow.createdAt).Pairwise (· ≤ ·)) (hrow : rows[i]? = some row)
    (hother : rows[j]? = some other) (hprio : other.priority = row.priority)
    (hbefore : row.Before i other j) : i ≤ j := by
  by_contra hlt
  obtain ⟨hi, rfl⟩ := List.getElem?_eq_some_iff.mp hrow
  obtain ⟨hj, rfl⟩ := List.getElem?_eq_some_iff.mp hother
  -- Had the other row been entered earlier, then it would be no younger.
  have hage : rows[j].createdAt ≤ rows[i].createdAt := by
    have hget := List.pairwise_iff_getElem.mp hsorted j i (by rwa [List.length_map])
      (by rwa [List.length_map]) (Nat.lt_of_not_le hlt)
    rwa [List.getElem_map, List.getElem_map] at hget
  rcases hbefore with hlt' | ⟨-, hlt' | ⟨-, hlt'⟩⟩
  · exact Int.lt_irrefl _ (hprio ▸ hlt')
  · exact String.not_lt.mpr hage hlt'
  · exact hlt (Nat.le_of_lt hlt')

/-- The first in line is the one to be claimed. -/
theorem served_of_firstInLine (h : start.JobTable rows) {calls : List QueueCall}
    (hfirst : JobRow.FirstInLine (after calls start).jobRows i row) : Served start calls i row where
  stands := hfirst.stands
  waited := by
    rintro before later old rfl hold
    obtain rfl := waited_of_waits h hold hfirst.stands hfirst.waits
    exact ⟨rfl, hfirst.waits⟩
  unclaimed := by
    rintro before m later job rfl hrun
    exact unclaimed_of_waits h hrun hfirst.stands hfirst.waits
  urgent := by
    intro j other hother hwaits
    by_cases hij : j = i
    · subst hij
      obtain rfl := Option.some.inj (hother.symm.trans hfirst.stands)
      exact Int.le_refl _
    · rcases hfirst.before j other hother hwaits hij with hlt | ⟨heq, -⟩
      · exact Int.le_of_lt hlt
      · exact Int.le_of_eq heq.symm
  early := by
    intro hsorted j other hother hwaits hprio
    by_cases hij : j = i
    · exact Nat.le_of_eq hij.symm
    · exact le_of_before hsorted hfirst.stands hother hprio
        (hfirst.before j other hother hwaits hij)

end Served

/-! ### All about claims -/

/-- What holds of the claims on a queue with some rows, and after any calls on it. -/
structure FairClaims (s : Store) (rows : List JobRow) : Prop where
  /-- A claim answers no job if and only if nobody waits. -/
  idle : ∀ m, ((claim m).run s).1 = .ok (.claimed none) ↔ ∀ row ∈ rows, ¬ row.Waits
  /-- A claim that answers no job changes nothing. -/
  unchanged : ∀ m, ((claim m).run s).1 = .ok (.claimed none) → ((claim m).run s).2 = s
  /-- Otherwise there is a first in line. -/
  first : (∃ row ∈ rows, row.Waits) → ∃ i row, JobRow.FirstInLine rows i row
  /-- If it does not decode then the claim fails, and nothing changes. -/
  unreadable : ∀ m i (row : JobRow) e, JobRow.FirstInLine rows i row → row.job = .error e →
    (claim m).run s = (.error e, s)
  /-- If it decodes then it alone changes, and the answer is what its row holds from now on. -/
  readable : ∀ m i (row : JobRow) job, JobRow.FirstInLine rows i row → row.job = .ok job →
    ∃ job', ({ row with status := "PROCESSING", startedAt := some m.now } : JobRow).job = .ok job' ∧
      (claim m).run s = (.ok (.claimed (some job')),
        s.put .jobs (some (rows.set i
          { row with status := "PROCESSING", startedAt := some m.now })))
  /-- Rows stand in the order in which their jobs were entered. -/
  entered : ∀ calls,
    (after calls s).jobRows.map JobRow.id = rows.map JobRow.id ++ entries calls s
  /-- After any calls, a claim answers the job that is the one to be claimed. -/
  served : ∀ calls m (job : Job), ((claim m).run (after calls s)).1 = .ok (.claimed (some job)) →
    ∃ i row, job.id = row.id ∧ Served s calls i row

/-- **Claims are fair**: they follow the order of the line whatever the queue holds, and along a
run no job is claimed twice or ahead of its turn. -/
theorem fairClaims {s : Store} {rows : List JobRow} (h : s.JobTable rows) : FairClaims s rows where
  idle := fun _ => run_claim_none h
  unchanged := by
    intro m hrun
    rw [run, answering_ok (claim_idle h.jobs ((run_claim_none h).mp hrun) m)]
  first := by
    rintro ⟨row, hrow, hwaits⟩
    rcases JobRow.first?_waiting rows with ⟨-, hidle⟩ | ⟨i, other, -, hfirst⟩
    · exact absurd hwaits (hidle row hrow)
    · exact ⟨i, other, hfirst⟩
  unreadable := fun m _ _ _ hfirst hjob => answering_error (claim_unreadable h.jobs hfirst hjob m)
  readable := by
    intro m i row job hfirst hjob
    have hjob := JobRow.job_eq_ok.mp hjob
    exact ⟨_, JobRow.job_eq_ok.mpr (hjob.process m.now),
      answering_ok (claim_readable h hfirst hjob m)⟩
  entered := h.ids_after
  served := by
    intro calls m job hrun
    obtain ⟨i, row, hfirst, hid, -⟩ := claimed_of_run (h.after calls) hrun
    exact ⟨i, row, hid, served_of_firstInLine h hfirst⟩

/-- A job that is being processed, and one that waits but does not decode. -/
def sampleRows : List JobRow :=
  [⟨"a", "w", "recoil", "", 1, "PROCESSING", "1", some "2", none, none⟩,
    ⟨"b", "w", "speed", "", 5, "QUEUED", "3", none, none, none⟩]

theorem fairClaims_sample :
    ({ Store.fresh with jobs := some sampleRows }).JobTable sampleRows ∧
      FairClaims { Store.fresh with jobs := some sampleRows } sampleRows :=
  have h : ({ Store.fresh with jobs := some sampleRows }).JobTable sampleRows := ⟨rfl, by decide⟩
  ⟨h, fairClaims h⟩

end QueueCall

end Gunsmith
