/-
  What becomes of the jobs of a store.

  One store comes after another (`Store.JobsAdvance`) if every row of the one is at its
  position in the other and has at most advanced.  This holds along calls on the queue
  (`JobsAdvance.of_run`), along whatever leaves the jobs alone (`JobsAdvance.of_rows_eq`),
  and along both in any order (`JobsAdvance.trans`).

  A job is taken (`Store.TakenJob`) once its row does not wait any more, and it has ended
  (`Store.EndedJob`) once its row is in a state that is not left.  Neither is undone.  So a
  claim, which answers a job that was not taken, never answers a job again
  (`Store.JobTable.taken_of_claim`).
-/
import Gunsmith.Proofs.Queue.Claims

namespace Gunsmith

namespace Store

/-- The jobs of one store are in the other, where each is as it was or has advanced. -/
structure JobsAdvance (s s' : Store) : Prop where
  table : s'.JobTable s'.jobRows
  advances : ∀ (i : Nat) (row : JobRow), s.jobRows[i]? = some row →
    ∃ row', s'.jobRows[i]? = some row' ∧ Relation.ReflTransGen JobRow.Advances row row'

/-- The job does not wait any more. -/
def TakenJob (s : Store) (id : String) : Prop :=
  ∃ row ∈ s.jobRows, row.id = id ∧ ¬ row.Waits

/-- The job is in a state in which it ends. -/
def EndedJob (s : Store) (id : String) : Prop :=
  ∃ row ∈ s.jobRows, row.id = id ∧ ∃ status : JobStatus, status.Terminal ∧
    row.status = status.keyword

variable {s s' s'' : Store} {id : String}

namespace JobsAdvance

theorem of_rows_eq (h : s.JobTable s.jobRows) (hrows : s'.rows? .jobs = s.rows? .jobs) :
    s.JobsAdvance s' := by
  have heq : s'.jobRows = s.jobRows :=
    congrArg (fun rows : Option (List JobRow) => rows.getD []) hrows
  refine ⟨⟨?_, heq ▸ h.ids⟩, fun i row hrow => ⟨row, ?_, Relation.ReflTransGen.refl⟩⟩
  · rw [heq]
    exact hrows.trans h.jobs
  · rwa [heq]

theorem refl (h : s.JobTable s.jobRows) : s.JobsAdvance s := of_rows_eq h rfl

theorem trans (h : s.JobsAdvance s') (h' : s'.JobsAdvance s'') : s.JobsAdvance s'' where
  table := h'.table
  advances i row hrow := by
    obtain ⟨row', hrow', hadvances⟩ := h.advances i row hrow
    obtain ⟨row'', hrow'', hadvances'⟩ := h'.advances i row' hrow'
    exact ⟨row'', hrow'', hadvances.trans hadvances'⟩

/-- Calls on the queue let jobs advance. -/
theorem of_run (h : s.JobTable s.jobRows) (call : QueueCall) : s.JobsAdvance (call.run s).2 where
  table := h.after [call]
  advances _ _ hrow := h.advances_after hrow [call]

/-- A row is found again, as that of the same job. -/
theorem exists_row (h : s.JobsAdvance s') {row : JobRow} (hrow : row ∈ s.jobRows) :
    ∃ row' ∈ s'.jobRows, row'.id = row.id ∧ Relation.ReflTransGen JobRow.Advances row row' := by
  obtain ⟨i, hi⟩ := List.mem_iff_getElem?.mp hrow
  obtain ⟨row', hrow', hadvances⟩ := h.advances i row hi
  exact ⟨row', List.mem_of_getElem? hrow', (JobRow.sameRequest_of_advances hadvances).id, hadvances⟩

/-- What is taken stays taken. -/
theorem taken (h : s.JobsAdvance s') (htaken : s.TakenJob id) : s'.TakenJob id := by
  obtain ⟨row, hrow, rfl, hwaits⟩ := htaken
  obtain ⟨row', hrow', hid, hadvances⟩ := h.exists_row hrow
  refine ⟨row', hrow', hid, fun hwaits' => hwaits ?_⟩
  rwa [JobRow.eq_of_advances_of_waits hadvances hwaits']

/-- What has ended stays so. -/
theorem ended (h : s.JobsAdvance s') (hended : s.EndedJob id) : s'.EndedJob id := by
  obtain ⟨row, hrow, rfl, status, hend, hstatus⟩ := hended
  obtain ⟨row', hrow', -, hadvances⟩ := h.exists_row hrow
  obtain rfl := JobRow.eq_of_advances_of_terminal hadvances hstatus hend
  exact ⟨row', hrow', rfl, status, hend, hstatus⟩

end JobsAdvance

namespace JobTable

variable {rows : List JobRow}

/-- The same table, with its rows read off the store. -/
theorem self (h : s.JobTable rows) : s.JobTable s.jobRows := by
  rw [h.jobRows_eq]
  exact h

/-- **A claim** answers a job that was not taken, and takes it. -/
theorem taken_of_claim (h : s.JobTable s.jobRows) {m : Moment} {job : Job}
    (hrun : (Transaction.claim m).call s = (.ok (some job), s')) :
    ¬ s.TakenJob job.id ∧ s'.TakenJob job.id := by
  have hcall : (QueueCall.claim m).run s = (.ok (.claimed (some job)), s') := by
    rw [QueueCall.run, QueueCall.answering, hrun]
    rfl
  obtain ⟨i, row, hfirst, hid, htable⟩ := QueueCall.claimed_of_run h (congrArg Prod.fst hcall)
  rw [hcall] at htable
  have hi := (List.getElem?_eq_some_iff.mp hfirst.stands).1
  constructor
  · rintro ⟨other, hother, hid', hwaits⟩
    obtain ⟨j, hj⟩ := List.mem_iff_getElem?.mp hother
    obtain rfl := h.position_unique hfirst.stands hj (hid'.trans hid)
    rw [hfirst.stands] at hj
    exact hwaits (Option.some.inj hj ▸ hfirst.waits)
  · refine ⟨JobUpdate.process.apply m.now row, ?_, ?_, JobUpdate.process.not_waits_apply m.now row⟩
    · rw [htable.jobRows_eq]
      exact List.mem_of_getElem? (List.getElem?_set_self hi)
    · rw [JobUpdate.id_apply, hid]

/-- A job that is moved on to its end has ended. -/
theorem ended_of_update (h : s.JobTable s.jobRows) {m : Moment} {u : JobUpdate}
    (hend : u.target.Terminal) (hrun : (u.action m id).call s = (.ok (), s')) : s'.EndedJob id := by
  have hcall : (QueueCall.update m id u).run s = (.ok .moved, s') := by
    rw [QueueCall.run, QueueCall.answering, hrun]
    rfl
  obtain ⟨rows', heffect, htable⟩ := QueueCall.run_effect h (.update m id u)
  rw [hcall] at heffect htable
  cases heffect with
  | @moved _ _ i row hrow hsource =>
    have hi := (List.getElem?_eq_some_iff.mp hrow).1
    refine ⟨u.apply m.now row, ?_, u.id_apply m.now row, u.target, hend, u.status_apply m.now row⟩
    rw [htable.jobRows_eq]
    exact List.mem_of_getElem? (List.getElem?_set_self hi)

end JobTable

end Store

end Gunsmith
