/-
  Jobs that are claimed in turn.

  Some jobs of a store stand in turn (`Store.InTurn`) if each of them comes before those after
  it in the order of claims.  Rows keep their positions and what the order looks at, so jobs
  that stand in turn go on doing so whatever else is entered, claimed or moved on
  (`Store.InTurn.advance`).

  A claim takes the first in line, so by the time a job is claimed those before it in the
  list are taken already, and a job that is taken is never claimed again.  Hence, along every
  run of calls, the jobs are claimed in the order of the list (`Store.InTurn.claims_sublist`),
  although some may be moved on by name and others never be claimed.
-/
import Gunsmith.Proofs.Queue.Advances

namespace Gunsmith

/-- The id of the job that was claimed, if the answer is that one was. -/
def QueueAnswer.claimed? : Except StoreError QueueAnswer → Option String
  | .ok (.claimed (some job)) => some job.id
  | _ => none

/-- The ids of the jobs that some calls claimed, in order. -/
def QueueCall.claims (calls : List QueueCall) (s : Store) : List String :=
  (answers calls s).filterMap QueueAnswer.claimed?

namespace QueueCall

variable {s : Store} {id : String}

theorem claims_cons (call : QueueCall) (calls : List QueueCall) (s : Store) :
    claims (call :: calls) s =
      (QueueAnswer.claimed? (call.run s).1).toList ++ claims calls (call.run s).2 := by
  rw [claims, answers, List.filterMap_cons]
  cases QueueAnswer.claimed? (call.run s).1 <;> rfl

theorem claimed?_eq_some {answer : Except StoreError QueueAnswer} :
    QueueAnswer.claimed? answer = some id ↔ ∃ job : Job, answer = .ok (.claimed (some job)) ∧
      job.id = id := by
  constructor
  · intro h
    cases answer with
    | error e => cases h
    | ok a =>
      cases a with
      | entered _ => cases h
      | moved => cases h
      | claimed job? =>
        cases job? with
        | none => cases h
        | some job => exact ⟨job, rfl, Option.some.inj h⟩
  · rintro ⟨job, rfl, rfl⟩
    rfl

theorem call_of_run_claim {m : Moment} {job : Job}
    (h : ((claim m).run s).1 = .ok (.claimed (some job))) :
    (Transaction.claim m).call s = (.ok (some job), ((claim m).run s).2) := by
  rw [run, answering] at h
  cases hcall : ((Transaction.claim m).call s).1 with
  | error e =>
    rw [hcall] at h
    cases h
  | ok answer =>
    rw [hcall] at h
    obtain rfl := QueueAnswer.claimed.inj (Except.ok.inj h)
    exact Prod.ext hcall rfl

/-- A call that claims a job takes it: the one that is first in line. -/
theorem firstInLine_of_claimed (h : s.JobTable s.jobRows) {call : QueueCall}
    (hclaimed : QueueAnswer.claimed? (call.run s).1 = some id) :
    (∃ i row, JobRow.FirstInLine s.jobRows i row ∧ row.id = id) ∧
      ¬ s.TakenJob id ∧ (call.run s).2.TakenJob id := by
  obtain ⟨job, hrun, rfl⟩ := claimed?_eq_some.mp hclaimed
  obtain ⟨rows', heffect, -⟩ := run_effect h call
  rw [hrun] at heffect
  cases heffect with
  | claimed hfirst hjob =>
    exact ⟨⟨_, _, hfirst, hjob.id.symm⟩, h.taken_of_claim (call_of_run_claim hrun)⟩

/-- What is taken is not claimed. -/
theorem not_mem_claims_of_taken (h : s.JobTable s.jobRows) (htaken : s.TakenJob id)
    (calls : List QueueCall) : id ∉ claims calls s := by
  induction calls generalizing s with
  | nil => exact List.not_mem_nil
  | cons call calls ih =>
    have hadvance := Store.JobsAdvance.of_run h call
    rw [claims_cons, List.mem_append, Option.mem_toList]
    rintro (hclaimed | hlater)
    · exact (firstInLine_of_claimed h hclaimed).2.1 htaken
    · exact ih hadvance.table (hadvance.taken htaken) hlater

end QueueCall

namespace Store

variable {s s' : Store} {batch : List String}

/-- The jobs with these ids come one before the other in the order of claims. -/
structure InTurn (s : Store) (batch : List String) : Prop where
  known : ∀ id ∈ batch, id ∈ s.jobRows.map JobRow.id
  before : batch.Pairwise fun a b => ∀ (i j : Nat) (row other : JobRow),
    s.jobRows[i]? = some row → s.jobRows[j]? = some other → row.id = a → other.id = b →
      row.Before i other j

namespace InTurn

theorem sublist {part : List String} (h : s.InTurn batch) (hpart : part.Sublist batch) :
    s.InTurn part where
  known id hid := h.known id (hpart.subset hid)
  before := h.before.sublist hpart

/-- Jobs stay in turn while they advance. -/
theorem advance (h : s.InTurn batch) (hadvance : s.JobsAdvance s') : s'.InTurn batch := by
  have hrow : ∀ id ∈ batch, ∃ (i : Nat) (row row' : JobRow), s.jobRows[i]? = some row ∧
      row.id = id ∧ s'.jobRows[i]? = some row' ∧ row.SameRequest row' := by
    intro id hid
    obtain ⟨row, hmem, rfl⟩ := List.mem_map.mp (h.known id hid)
    obtain ⟨i, hi⟩ := List.mem_iff_getElem?.mp hmem
    obtain ⟨row', hi', hadvances⟩ := hadvance.advances i row hi
    exact ⟨i, row, row', hi, rfl, hi', JobRow.sameRequest_of_advances hadvances⟩
  refine ⟨fun id hid => ?_, h.before.imp_of_mem ?_⟩
  · obtain ⟨i, row, row', -, rfl, hi', hsame⟩ := hrow id hid
    exact List.mem_map.mpr ⟨row', List.mem_of_getElem? hi', hsame.id⟩
  · rintro a b ha hb hbefore i j row' other' hi' hj' rfl rfl
    obtain ⟨i₀, row, row₀, hi, hid, hi₀, hsame⟩ := hrow _ ha
    obtain ⟨j₀, other, other₀, hj, hid', hj₀, hsame'⟩ := hrow _ hb
    -- The ids are keys, so these are the rows that the jobs had before.
    obtain rfl := hadvance.table.position_unique hi₀ hi' (hsame.id.trans hid).symm
    obtain rfl := Option.some.inj (hi₀.symm.trans hi')
    obtain rfl := hadvance.table.position_unique hj₀ hj' (hsame'.id.trans hid').symm
    obtain rfl := Option.some.inj (hj₀.symm.trans hj')
    have hbefore := hbefore i j row other hi hj hid hid'
    unfold JobRow.Before at hbefore ⊢
    rwa [hsame.priority, hsame'.priority, hsame.createdAt, hsame'.createdAt]

/-- When a job is first in line, those before it are taken. -/
theorem taken_of_firstInLine {before later : List String} {i : Nat} {row : JobRow}
    (h : s.InTurn (before ++ row.id :: later)) (hfirst : JobRow.FirstInLine s.jobRows i row) :
    ∀ id ∈ before, s.TakenJob id := by
  intro id hid
  obtain ⟨other, hother, rfl⟩ := List.mem_map.mp (h.known id (List.mem_append_left _ hid))
  refine ⟨other, hother, rfl, fun hwaits => ?_⟩
  obtain ⟨j, hj⟩ := List.mem_iff_getElem?.mp hother
  have hbefore := (List.pairwise_append.mp h.before).2.2 _ hid _ List.mem_cons_self j i other row
    hj hfirst.stands rfl rfl
  by_cases hij : j = i
  · subst hij
    obtain rfl := Option.some.inj (hj.symm.trans hfirst.stands)
    exact JobRow.Before.irrefl _ _ hbefore
  · exact JobRow.Before.irrefl _ _ ((hfirst.before j other hj hwaits hij).trans hbefore)

/-- Once a job is claimed, only those after it in the list can be. -/
theorem filter_claims (htable : s.JobTable s.jobRows) {before later : List String} {id : String}
    (htaken : ∀ other ∈ before ++ [id], s.TakenJob other) (calls : List QueueCall) :
    (QueueCall.claims calls s).filter (fun other => other ∈ before ++ id :: later) =
      (QueueCall.claims calls s).filter fun other => other ∈ later := by
  refine List.filter_congr fun other hother => decide_eq_decide.mpr ?_
  have hwaits : other ∉ before ++ [id] := fun hmem =>
    QueueCall.not_mem_claims_of_taken htable (htaken other hmem) calls hother
  rw [List.append_cons, List.mem_append, or_iff_right hwaits]

/-- **Jobs in turn are claimed in turn**, whatever calls are made on the queue. -/
theorem claims_sublist (h : s.InTurn batch) (htable : s.JobTable s.jobRows)
    (calls : List QueueCall) :
    ((QueueCall.claims calls s).filter fun id => id ∈ batch).Sublist batch := by
  -- Each job that is claimed cuts the list: those before it are taken, those after it are left.
  induction calls generalizing s batch with
  | nil => exact List.nil_sublist batch
  | cons call calls ih =>
    have hadvance := JobsAdvance.of_run htable call
    have hturn := h.advance hadvance
    rw [QueueCall.claims_cons]
    cases hclaimed : QueueAnswer.claimed? (call.run s).1 with
    | none => exact ih hturn hadvance.table
    | some id =>
      rw [Option.toList_some, List.singleton_append, List.filter_cons]
      by_cases hid : id ∈ batch
      · obtain ⟨⟨i, row, hfirst, rfl⟩, -, hclaimed⟩ :=
          QueueCall.firstInLine_of_claimed htable hclaimed
        obtain ⟨before, later, rfl⟩ := List.append_of_mem hid
        have htaken : ∀ other ∈ before ++ [row.id], (call.run s).2.TakenJob other := by
          intro other hother
          rcases List.mem_append.mp hother with hother | hother
          · exact hadvance.taken (h.taken_of_firstInLine hfirst other hother)
          · exact List.mem_singleton.mp hother ▸ hclaimed
        have hlater : later.Sublist (before ++ row.id :: later) :=
          (List.sublist_cons_self _ _).trans (List.sublist_append_right _ _)
        rw [if_pos (decide_eq_true hid), filter_claims hadvance.table htaken]
        exact ((ih (hturn.sublist hlater) hadvance.table).cons_cons _).trans
          (List.sublist_append_right _ _)
      · rw [if_neg (Bool.eq_false_iff.mp (decide_eq_false hid))]
        exact ih hturn hadvance.table

end InTurn

end Store

end Gunsmith
