/-
  Who is first in line.

  A claim takes a waiting row: one of the highest priority, of these the one that was created
  first, and of these the one that was entered first.  `JobRow.Before` is this order, on rows
  at their positions in the table, and `JobRow.FirstInLine` says that a row comes before all
  other waiting rows.  There is at most one such row (`JobRow.FirstInLine.unique`), and the
  row that a claim looks up is the one (`JobRow.first?_waiting`).
-/
import Gunsmith.Proofs.Store.Calls

namespace Gunsmith

namespace JobRow

/-! ### The order of claims -/

/-- The row waits to be claimed. -/
def Waits (row : JobRow) : Prop := row.status = JobStatus.queued.keyword

instance (row : JobRow) : Decidable row.Waits :=
  inferInstanceAs (Decidable (_ = _))

/-- The row `a` at position `i` is claimed before the row `b` at position `j`: by priority, then by
age, then by position. -/
def Before (a : JobRow) (i : Nat) (b : JobRow) (j : Nat) : Prop :=
  b.priority < a.priority ∨
    (a.priority = b.priority ∧ (a.createdAt < b.createdAt ∨ (a.createdAt = b.createdAt ∧ i < j)))

variable {a b c row other : JobRow} {rows : List JobRow} {i j k : Nat}

theorem Before.trans (h₁ : a.Before i b j) (h₂ : b.Before j c k) : a.Before i c k := by
  unfold Before at *
  rcases h₁ with h₁ | ⟨e₁, h₁⟩ <;> rcases h₂ with h₂ | ⟨e₂, h₂⟩
  · exact Or.inl (Int.lt_trans h₂ h₁)
  · exact Or.inl (e₂ ▸ h₁)
  · exact Or.inl (e₁ ▸ h₂)
  · refine Or.inr ⟨e₁.trans e₂, ?_⟩
    rcases h₁ with h₁ | ⟨c₁, h₁⟩ <;> rcases h₂ with h₂ | ⟨c₂, h₂⟩
    · exact Or.inl (String.lt_trans h₁ h₂)
    · exact Or.inl (c₂ ▸ h₁)
    · exact Or.inl (c₁ ▸ h₂)
    · exact Or.inr ⟨c₁.trans c₂, h₁.trans h₂⟩

theorem Before.irrefl (a : JobRow) (i : Nat) : ¬ a.Before i a i := by
  unfold Before
  rintro (h | ⟨-, h | ⟨-, h⟩⟩)
  · exact Int.lt_irrefl _ h
  · exact String.lt_irrefl _ h
  · exact Nat.lt_irrefl _ h

theorem Before.succ (h : a.Before i b j) : a.Before (i + 1) b (j + 1) := by
  unfold Before at *
  rcases h with h | ⟨he, h | ⟨hc, h⟩⟩
  · exact Or.inl h
  · exact Or.inr ⟨he, Or.inl h⟩
  · exact Or.inr ⟨he, Or.inr ⟨hc, Nat.succ_lt_succ h⟩⟩

/-- The row that stands in front comes first unless the other one precedes it properly. -/
theorem Before.of_precedes (h : a.Precedes b) : a.Before 0 b (i + 1) := by
  unfold Before
  rcases h with h | ⟨he, h⟩
  · exact Or.inl h
  · refine Or.inr ⟨he, ?_⟩
    by_cases hlt : a.createdAt < b.createdAt
    · exact Or.inl hlt
    · exact Or.inr ⟨String.le_antisymm h (String.not_lt.mp hlt), Nat.succ_pos i⟩

theorem Before.of_not_precedes (h : ¬ a.Precedes b) : b.Before i a j := by
  unfold Precedes at h
  unfold Before
  rw [not_or, not_and] at h
  obtain ⟨hp, hc⟩ := h
  rcases Int.lt_or_eq_of_le (Int.not_lt.mp hp) with hlt | heq
  · exact Or.inl hlt
  · exact Or.inr ⟨heq.symm, Or.inl (String.not_le.mp (hc heq))⟩

/-! ### The first in line -/

/-- The row waits, and comes before all other waiting rows. -/
structure FirstInLine (rows : List JobRow) (i : Nat) (row : JobRow) : Prop where
  stands : rows[i]? = some row
  waits : row.Waits
  before : ∀ j other, rows[j]? = some other → other.Waits → j ≠ i → row.Before i other j

theorem FirstInLine.unique (h₁ : FirstInLine rows i a) (h₂ : FirstInLine rows j b) :
    i = j ∧ a = b := by
  have hij : i = j := by
    by_contra hne
    have hab := h₁.before j b h₂.stands h₂.waits (Ne.symm hne)
    have hba := h₂.before i a h₁.stands h₁.waits hne
    exact Before.irrefl a i (hab.trans hba)
  subst hij
  exact ⟨rfl, Option.some.inj (h₁.stands.symm.trans h₂.stands)⟩

/-- A row in front that does not come first changes nothing. -/
theorem FirstInLine.cons (h : FirstInLine rows i row) (hfirst : other.Waits → ¬ other.Precedes row) :
    FirstInLine (other :: rows) (i + 1) row where
  stands := h.stands
  waits := h.waits
  before := by
    intro j third hthird hwaits hne
    cases j with
    | zero =>
      rw [List.getElem?_cons_zero] at hthird
      obtain rfl := Option.some.inj hthird
      exact Before.of_not_precedes (hfirst hwaits)
    | succ j =>
      rw [List.getElem?_cons_succ] at hthird
      exact (h.before j third hthird hwaits fun heq => hne (congrArg _ heq)).succ

/-- A waiting row in front comes first if it precedes the one that was first. -/
theorem FirstInLine.cons_of_precedes (h : FirstInLine rows i row) (hwaits : other.Waits)
    (hprec : other.Precedes row) : FirstInLine (other :: rows) 0 other where
  stands := rfl
  waits := hwaits
  before := by
    intro j third hthird hthirdWaits hne
    cases j with
    | zero => exact absurd rfl hne
    | succ j =>
      rw [List.getElem?_cons_succ] at hthird
      have hrow : other.Before 0 row (i + 1) := Before.of_precedes hprec
      by_cases hji : j = i
      · subst hji
        rw [h.stands] at hthird
        exact Option.some.inj hthird ▸ hrow
      · exact hrow.trans (h.before j third hthird hthirdWaits hji).succ

/-- The only waiting row is the first. -/
theorem FirstInLine.of_none_waits (hwaits : row.Waits) (h : ∀ other ∈ rows, ¬ other.Waits) :
    FirstInLine (row :: rows) 0 row where
  stands := rfl
  waits := hwaits
  before := by
    intro j other hother hotherWaits hne
    cases j with
    | zero => exact absurd rfl hne
    | succ j =>
      rw [List.getElem?_cons_succ] at hother
      exact absurd hotherWaits (h other (List.mem_of_getElem? hother))

theorem waiting_cons_of_waits (h : row.Waits) : waiting (row :: rows) = row :: waiting rows :=
  List.filter_cons_of_pos (beq_iff_eq.mpr h)

theorem waiting_cons_of_not_waits (h : ¬ row.Waits) : waiting (row :: rows) = waiting rows :=
  List.filter_cons_of_neg fun hbeq => h (beq_iff_eq.mp hbeq)

/-- **The row that a claim looks up** is the first in line, and there is none only if nobody
waits. -/
theorem first?_waiting (rows : List JobRow) :
    (first? (waiting rows) = none ∧ ∀ row ∈ rows, ¬ row.Waits) ∨
      ∃ i row, first? (waiting rows) = some row ∧ FirstInLine rows i row := by
  induction rows with
  | nil => exact Or.inl ⟨rfl, fun _ h => absurd h List.not_mem_nil⟩
  | cons row rows ih =>
    by_cases hwaits : row.Waits
    · right
      rw [waiting_cons_of_waits hwaits, first?]
      rcases ih with ⟨hnone, hidle⟩ | ⟨i, other, hsome, hfirst⟩
      · rw [hnone]
        exact ⟨0, row, rfl, FirstInLine.of_none_waits hwaits hidle⟩
      · rw [hsome]
        dsimp only
        -- The row in front was entered earlier, so it comes first in a tie.
        split_ifs with hprec
        · exact ⟨0, row, rfl, hfirst.cons_of_precedes hwaits hprec⟩
        · exact ⟨i + 1, other, rfl, hfirst.cons fun _ => hprec⟩
    · rw [waiting_cons_of_not_waits hwaits]
      rcases ih with ⟨hnone, hidle⟩ | ⟨i, other, hsome, hfirst⟩
      · left
        refine ⟨hnone, fun other hother => ?_⟩
        rcases List.mem_cons.mp hother with rfl | hother
        · exact hwaits
        · exact hidle other hother
      · right
        exact ⟨i + 1, other, hsome, hfirst.cons fun h => absurd h hwaits⟩

theorem FirstInLine.first? (h : FirstInLine rows i row) :
    JobRow.first? (waiting rows) = some row := by
  rcases first?_waiting rows with ⟨-, hidle⟩ | ⟨j, other, hsome, hfirst⟩
  · exact absurd h.waits (hidle row (List.mem_of_getElem? h.stands))
  · rw [hsome, (hfirst.unique h).2]

end JobRow

end Gunsmith
