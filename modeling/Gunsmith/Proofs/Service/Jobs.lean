/-
  What the calls for a job do to the queue.

  Whatever the service, the job and the store, the calls let jobs advance and do nothing
  else to the queue (`Service.step_jobsAdvance`).  Two kinds of calls write it at all: a
  completion, and the record of a failure.  One of these is the last call if the processing
  ends with an outcome, and it was made, so the job has ended then
  (`Service.step_ended`).
-/
import Gunsmith.Proofs.Queue.Advances
import Gunsmith.Proofs.Service.Steps

namespace Gunsmith

namespace Desk

variable {α : Type} {desk desk' : Desk} {action : Transaction α} {answer : Except StoreError α}

/-- What a call at a desk answers and does is what it answers and does to the store. -/
theorem call_store (h : desk.call action = (answer, desk')) :
    action.call desk.store = (answer, desk'.store) := by
  have hanswer : (desk.call action).1 = answer := congrArg Prod.fst h
  exact Prod.ext hanswer (store_call h).symm

/-- A call that moves a job on lets jobs advance. -/
theorem jobsAdvance_of_update (hjobs : desk.store.JobTable desk.store.jobRows) {u : JobUpdate}
    {m : Moment} {id : String} {answer : Except StoreError Unit}
    (h : desk.call (u.action m id) = (answer, desk')) : desk.store.JobsAdvance desk'.store := by
  rw [store_call h]
  exact .of_run hjobs (.update m id u)

/-- A claim lets jobs advance. -/
theorem jobsAdvance_of_claim (hjobs : desk.store.JobTable desk.store.jobRows) {m : Moment}
    {answer : Except StoreError (Option Job)} (h : desk.call (.claim m) = (answer, desk')) :
    desk.store.JobsAdvance desk'.store := by
  rw [store_call h]
  exact .of_run hjobs (.claim m)

end Desk

namespace Service

variable {svc : Service} {job : Job} {desk : Desk} {stage : Stage} {m : Moment}

/-- **Every call lets jobs advance** at most. -/
theorem step_jobsAdvance (h : desk.store.JobTable desk.store.jobRows) :
    desk.store.JobsAdvance (svc.step m job desk stage).2.store := by
  by_cases htable : stage.table? = some .jobs
  · cases stage
    case settle buildId =>
      simp only [step]
      split <;> next hrun => exact Desk.jobsAdvance_of_update (u := .complete) h hrun
    case finish buildId storedId result fromSubtree =>
      simp only [step]
      split <;> next hrun => exact Desk.jobsAdvance_of_update (u := .complete) h hrun
    case abandon message =>
      simp only [step]
      split <;> next hrun => exact Desk.jobsAdvance_of_update (u := .fail message) h hrun
    all_goals cases htable
  · exact .of_rows_eq h (step_rows m job desk htable)

/-- **A call with which the processing ends in an outcome** ends the job. -/
theorem step_ended (h : desk.store.JobTable desk.store.jobRows) (hstage : stage.answer? = none)
    {outcome : Outcome} (hdone : (svc.step m job desk stage).1 = .done (.ok outcome)) :
    (svc.step m job desk stage).2.store.EndedJob job.id := by
  have completes : ∀ {desk' : Desk}, desk.call (.setCompleted m job.id) = (.ok (), desk') →
      desk'.store.EndedJob job.id := fun hrun =>
    h.ended_of_update (u := .complete) trivial (Desk.call_store hrun)
  cases stage
  case settle buildId =>
    rcases hrun : desk.call (.setCompleted m job.id) with ⟨e | u, desk'⟩
    · simp only [step, hrun] at hdone
      cases hdone
    · simp only [step, hrun]
      exact completes hrun
  case finish buildId storedId result fromSubtree =>
    rcases hrun : desk.call (.setCompleted m job.id) with ⟨e | u, desk'⟩
    · simp only [step, hrun] at hdone
      cases hdone
    · simp only [step, hrun]
      exact completes hrun
  case abandon message =>
    rcases hrun : desk.call (.setFailed m job.id message) with ⟨e | u, desk'⟩
    · simp only [step, hrun] at hdone
      cases hdone
    · simp only [step, hrun]
      exact h.ended_of_update (u := .fail message) trivial (Desk.call_store hrun)
  case done answer => cases hstage
  -- All other calls are followed by another one, or end without an outcome.
  all_goals
    simp only [step] at hdone
    split at hdone <;> cases hdone

end Service

end Gunsmith
