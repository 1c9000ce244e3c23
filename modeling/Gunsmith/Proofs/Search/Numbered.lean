/-
  Numbers tell sub-problems apart.

  A ticket is issued for a sub-problem when its slots and its exclusions have come up, and stays
  the same from then on (`NumberedMemo.Keeps`); no two sub-problems ever have the same ticket
  (`NumberedMemo.eq_of_ticket?`).  So a table that keeps solutions under tickets holds what a
  table holds that keeps them under the sub-problems themselves (`NumberedMemo.Shows`), and a
  solution may be entered under a ticket that was issued long before.
-/
import Gunsmith.Search.Numbered
import Gunsmith.Proofs.Search.Refinement

namespace Gunsmith

namespace NumberedMemo

variable {t t' t'' : NumberedMemo} {p q : Subproblem} {k : Ticket} {solution : Solution}
  {memo : Memo}

/-! ### Tickets -/

/-- The ticket of a sub-problem, if its slots and its exclusions have come up. -/
def ticket? (t : NumberedMemo) (p : Subproblem) : Option Ticket := do
  return ⟨← t.slotLists.number? p.1, ← t.exclusions.number? p.2⟩

theorem ticket?_eq_some : t.ticket? p = some k ↔
    t.slotLists.number? p.1 = some k.slots ∧ t.exclusions.number? p.2 = some k.excluded := by
  unfold ticket?
  rcases t.slotLists.number? p.1 with _ | i <;> rcases t.exclusions.number? p.2 with _ | j <;>
    simp [Ticket.ext_iff]

/-- **No two sub-problems have the same ticket.** -/
theorem eq_of_ticket? (hp : t.ticket? p = some k) (hq : t.ticket? q = some k) : p = q := by
  obtain ⟨hp₁, hp₂⟩ := ticket?_eq_some.mp hp
  obtain ⟨hq₁, hq₂⟩ := ticket?_eq_some.mp hq
  exact Prod.ext (Numbering.eq_of_number? hp₁ hq₁) (Numbering.eq_of_number? hp₂ hq₂)

/-- Tickets that have been issued stay the same. -/
def Keeps (t t' : NumberedMemo) : Prop := ∀ p k, t.ticket? p = some k → t'.ticket? p = some k

theorem Keeps.refl (t : NumberedMemo) : t.Keeps t := fun _ _ h => h

theorem Keeps.trans (h : t.Keeps t') (h' : t'.Keeps t'') : t.Keeps t'' :=
  fun p k hk => h' p k (h p k hk)

theorem ticket?_ticket : (t.ticket p).2.ticket? p = some (t.ticket p).1 :=
  ticket?_eq_some.mpr ⟨Numbering.number?_number_self, Numbering.number?_number_self⟩

theorem keeps_ticket : t.Keeps (t.ticket p).2 := by
  intro q k hq
  obtain ⟨hslots, hexcluded⟩ := ticket?_eq_some.mp hq
  exact ticket?_eq_some.mpr ⟨Numbering.number?_number_of_some hslots,
    Numbering.number?_number_of_some hexcluded⟩

theorem keeps_enter : t.Keeps (t.enter k solution) := fun _ _ h => h

/-! ### Solutions -/

/-- The numbered table holds what the table holds, under the tickets of the sub-problems. -/
structure Shows (t : NumberedMemo) (memo : Memo) : Prop where
  /-- Every solution is kept under a ticket that has been issued. -/
  issued : ∀ k solution, t.solutions[k]? = some solution → ∃ p, t.ticket? p = some k
  known : ∀ p solution, memo[p]? = some solution ↔
    ∃ k, t.ticket? p = some k ∧ t.solutions[k]? = some solution

theorem shows_empty : empty.Shows ∅ where
  issued k solution h := by simp [empty] at h
  known p solution := by simp [empty, ticket?]

/-- Numbering a sub-problem finds and forgets nothing. -/
theorem Shows.ticket (h : t.Shows memo) (p : Subproblem) : (t.ticket p).2.Shows memo where
  issued k solution hk := by
    obtain ⟨q, hq⟩ := h.issued k solution hk
    exact ⟨q, keeps_ticket q k hq⟩
  known q solution := by
    rw [h.known]
    constructor
    · rintro ⟨k, hk, hsol⟩
      exact ⟨k, keeps_ticket q k hk, hsol⟩
    · -- A ticket under which something is kept had been issued before, for the same sub-problem.
      rintro ⟨k, hk, hsol⟩
      obtain ⟨r, hr⟩ := h.issued k solution hsol
      obtain rfl := eq_of_ticket? hk (keeps_ticket r k hr)
      exact ⟨k, hr, hsol⟩

/-- What is found under the ticket of a sub-problem is what is known of it. -/
theorem Shows.getElem?_solutions (h : t.Shows memo) (hk : t.ticket? p = some k) :
    t.solutions[k]? = memo[p]? := by
  ext solution
  rw [h.known]
  constructor
  · exact fun hsol => ⟨k, hk, hsol⟩
  · rintro ⟨k', hk', hsol⟩
    rw [Option.some.inj (hk.symm.trans hk')]
    exact hsol

/-- Entering a solution under the ticket of a sub-problem makes it known of this one only. -/
theorem Shows.enter (h : t.Shows memo) (hk : t.ticket? p = some k) (solution : Solution) :
    (t.enter k solution).Shows (memo.insert p solution) where
  issued k' solution' hk' := by
    rw [NumberedMemo.enter, Std.TreeMap.getElem?_insert] at hk'
    split_ifs at hk' with heq
    · exact ⟨p, Std.LawfulEqCmp.eq_of_compare heq ▸ hk⟩
    · exact h.issued k' solution' hk'
  known q solution' := by
    rw [NumberedMemo.enter]
    by_cases hpq : p = q
    · subst hpq
      rw [Std.TreeMap.getElem?_insert_self]
      constructor
      · intro hsol
        refine ⟨k, hk, ?_⟩
        rw [Std.TreeMap.getElem?_insert_self]
        exact hsol
      · rintro ⟨k', hk', hsol⟩
        rw [← Option.some.inj (hk.symm.trans hk'), Std.TreeMap.getElem?_insert_self] at hsol
        exact hsol
    · rw [Std.TreeMap.getElem?_insert, if_neg (mt Std.LawfulEqCmp.eq_of_compare hpq), h.known]
      refine exists_congr fun k' => and_congr_right fun hk' => ?_
      have hne : k ≠ k' := fun heq => hpq (eq_of_ticket? hk (heq ▸ hk'))
      rw [Std.TreeMap.getElem?_insert, if_neg (mt Std.LawfulEqCmp.eq_of_compare hne)]

end NumberedMemo

/-! ### Courses -/

namespace Course

variable {σ : Type} {t : Course} {s : Progress σ} {call : SearchCall}

/-- The course is that of the search: the table holds what its table holds, as much has been
counted, and lookups were made under the tickets of their sub-problems. -/
structure Shows (t : Course) (s : Progress σ) : Prop where
  memo : t.memo.Shows s.memo
  stats : t.stats = s.stats
  ticket : ∀ l ∈ t.lookups, t.memo.ticket? l.call.subproblem = some l.ticket

theorem shows_start (memory : σ) : start.Shows ⟨∅, ⟨0, 0, 0, 0⟩, memory⟩ where
  memo := NumberedMemo.shows_empty
  stats := rfl
  ticket _ hl := absurd hl List.not_mem_nil

/-- The lookup of a call finds what is known of its sub-problem, and is recorded. -/
theorem lookUp_spec (h : t.Shows s) (call : SearchCall) : ∃ k t',
    t.lookUp call = (⟨call, k, s.memo[call.subproblem]?⟩, t') ∧ t'.Shows s ∧
      t.memo.Keeps t'.memo ∧ t'.memo.ticket? call.subproblem = some k ∧
      t'.lookups = t.lookups ++ [⟨call, k, s.memo[call.subproblem]?⟩] := by
  have hmemo := h.memo.ticket call.subproblem
  have hticket := NumberedMemo.ticket?_ticket (t := t.memo) (p := call.subproblem)
  have hlookup : t.lookUp call =
      (⟨call, (t.memo.ticket call.subproblem).1, s.memo[call.subproblem]?⟩,
        ⟨(t.memo.ticket call.subproblem).2, t.stats, t.lookups ++
          [⟨call, (t.memo.ticket call.subproblem).1, s.memo[call.subproblem]?⟩]⟩) := by
    rw [← hmemo.getElem?_solutions hticket]
    rfl
  refine ⟨_, _, hlookup, ⟨hmemo, h.stats, fun l hl => ?_⟩, NumberedMemo.keeps_ticket, hticket, rfl⟩
  rcases List.mem_append.mp hl with hl | hl
  · exact NumberedMemo.keeps_ticket _ _ (h.ticket l hl)
  · rw [List.mem_singleton.mp hl]
    exact hticket

/-- Solutions may be entered as long after the lookup as one likes. -/
theorem Shows.enter (h : t.Shows s) {p : Subproblem} {k : Ticket}
    (hk : t.memo.ticket? p = some k) (solution : Solution) :
    Shows { t with memo := t.memo.enter k solution }
      { s with memo := s.memo.insert p solution } :=
  ⟨h.memo.enter hk solution, h.stats, h.ticket⟩

/-- Both count alike. -/
theorem Shows.count (h : t.Shows s) (f : SearchStats → SearchStats) :
    Shows { t with stats := f t.stats } { s with stats := f s.stats } :=
  ⟨h.memo, congrArg f h.stats, h.ticket⟩

end Course

end Gunsmith
