/-
  The order of totals with a stat in focus.

  `Totals.Better` compares the focused stat first and the secondary stat second.  Its
  weak form `Totals.AtLeast` is a linear order (`AtLeast.trans`, `AtLeast.antisymm`,
  `atLeast_total`) that respects sums (`AtLeast.add`).  The last fact is what lets
  independent parts of a build be decided one by one: the best of a whole is made of the
  best of its parts.

  Totals form a commutative monoid, so the sums over the parts of a build do not depend
  on the order in which the parts are listed.  `Totals.IsBest` says that totals are the best
  of a set of totals, and there is at most one such (`IsBest.unique`).
-/
import Gunsmith.Stat
import Mathlib.Algebra.BigOperators.Group.List.Basic
import Mathlib.Data.Set.Basic

namespace Gunsmith

/-! ### Values of one stat -/

namespace Stat

variable {stat : Stat} {a b c d : Int}

theorem Better.asymm (h : stat.Better a b) : ¬ stat.Better b a :=
  fun h' => better_irrefl stat a (h.trans h')

/-- Of two values neither of which is better, each is the other. -/
theorem eq_of_not_better (h₁ : ¬ stat.Better a b) (h₂ : ¬ stat.Better b a) : a = b := by
  cases stat <;> simp only [Better] at h₁ h₂ <;> omega

theorem not_better_trans (h₁ : ¬ stat.Better b a) (h₂ : ¬ stat.Better c b) :
    ¬ stat.Better c a := by
  cases stat <;> simp only [Better] at h₁ h₂ ⊢ <;> omega

theorem better_of_not_better_of_better (h₁ : ¬ stat.Better b a) (h₂ : stat.Better b c) :
    stat.Better a c := by
  cases stat <;> simp only [Better] at h₁ h₂ ⊢ <;> omega

theorem better_of_better_of_not_better (h₁ : stat.Better a b) (h₂ : ¬ stat.Better c b) :
    stat.Better a c := by
  cases stat <;> simp only [Better] at h₁ h₂ ⊢ <;> omega

/-- What is better with the secondary stat in focus is worse for the stat itself. -/
theorem better_secondary : stat.secondary.Better a b ↔ stat.Better b a := by
  cases stat <;> exact Iff.rfl

/-- Being no better is kept by sums. -/
theorem not_better_add (h₁ : ¬ stat.Better a b) (h₂ : ¬ stat.Better c d) :
    ¬ stat.Better (a + c) (b + d) := by
  cases stat <;> simp only [Better] at h₁ h₂ ⊢ <;> omega

end Stat

namespace Totals

/-! ### Sums -/

/-- Totals are determined by their two values. -/
theorem ext_values {a b : Totals} (hr : a.recoil = b.recoil) (he : a.ergonomics = b.ergonomics) :
    a = b := by
  cases a
  cases b
  congr

/-- Totals are determined by the focused and the secondary value. -/
theorem ext_pick {a b : Totals} (stat : Stat) (h₁ : a.pick stat = b.pick stat)
    (h₂ : a.pick stat.secondary = b.pick stat.secondary) : a = b := by
  cases stat
  · exact ext_values h₁ h₂
  · exact ext_values h₂ h₁

instance : AddCommMonoid Totals where
  add_assoc a b c := ext_values (Int.add_assoc ..) (Int.add_assoc ..)
  zero_add a := ext_values (Int.zero_add _) (Int.zero_add _)
  add_zero a := ext_values (Int.add_zero _) (Int.add_zero _)
  add_comm a b := ext_values (Int.add_comm ..) (Int.add_comm ..)
  nsmul := nsmulRec

@[simp]
theorem pick_zero (stat : Stat) : (0 : Totals).pick stat = 0 := by
  cases stat <;> rfl

/-! ### The weak order -/

variable {stat : Stat} {a b c d : Totals}

/-- Totals `a` are at least as good as `b`: those of `b` are not better. -/
def AtLeast (stat : Stat) (a b : Totals) : Prop := ¬ Better stat b a

/-- The weak order in terms of the two values. -/
theorem atLeast_iff : AtLeast stat a b ↔
    stat.Better (a.pick stat) (b.pick stat) ∨
      (a.pick stat = b.pick stat ∧
        ¬ stat.secondary.Better (b.pick stat.secondary) (a.pick stat.secondary)) := by
  unfold AtLeast Better
  constructor
  · intro h
    by_cases hab : stat.Better (a.pick stat) (b.pick stat)
    · exact Or.inl hab
    · have heq := Stat.eq_of_not_better hab fun hba => h (Or.inl hba)
      exact Or.inr ⟨heq, fun hs => h (Or.inr ⟨heq.symm, hs⟩)⟩
  · rintro (hab | ⟨heq, hs⟩) (hba | ⟨heq', hs'⟩)
    · exact hab.asymm hba
    · exact Stat.better_irrefl _ _ (heq' ▸ hab)
    · exact Stat.better_irrefl _ _ (heq ▸ hba)
    · exact hs hs'

@[refl]
theorem AtLeast.refl (stat : Stat) (a : Totals) : AtLeast stat a a :=
  atLeast_iff.mpr (Or.inr ⟨rfl, Stat.better_irrefl _ _⟩)

theorem Better.atLeast (h : Better stat a b) : AtLeast stat a b := by
  rw [atLeast_iff]
  rcases h with h | ⟨heq, h⟩
  · exact Or.inl h
  · exact Or.inr ⟨heq, h.asymm⟩

theorem atLeast_total (stat : Stat) (a b : Totals) : AtLeast stat a b ∨ AtLeast stat b a := by
  by_cases h : Better stat b a
  · exact Or.inr h.atLeast
  · exact Or.inl h

theorem AtLeast.trans (h₁ : AtLeast stat a b) (h₂ : AtLeast stat b c) : AtLeast stat a c := by
  rw [atLeast_iff] at *
  rcases h₁ with h₁ | ⟨e₁, h₁⟩ <;> rcases h₂ with h₂ | ⟨e₂, h₂⟩
  · exact Or.inl (h₁.trans h₂)
  · exact Or.inl (e₂ ▸ h₁)
  · exact Or.inl (e₁ ▸ h₂)
  · exact Or.inr ⟨e₁.trans e₂, Stat.not_better_trans h₁ h₂⟩

theorem AtLeast.antisymm (h₁ : AtLeast stat a b) (h₂ : AtLeast stat b a) : a = b := by
  rw [atLeast_iff] at h₁ h₂
  rcases h₁ with h₁ | ⟨e₁, h₁⟩ <;> rcases h₂ with h₂ | ⟨e₂, h₂⟩
  · exact absurd h₂ h₁.asymm
  · exact absurd (e₂ ▸ h₁) (Stat.better_irrefl _ _)
  · exact absurd (e₁ ▸ h₂) (Stat.better_irrefl _ _)
  · exact ext_pick stat e₁ (Stat.eq_of_not_better h₂ h₁)

/-- **The order respects sums**: parts that are at least as good make a whole that is. -/
theorem AtLeast.add (h₁ : AtLeast stat a b) (h₂ : AtLeast stat c d) :
    AtLeast stat (a + c) (b + d) := by
  rw [atLeast_iff] at *
  simp only [pick_add]
  rcases h₁ with h₁ | ⟨e₁, h₁⟩ <;> rcases h₂ with h₂ | ⟨e₂, h₂⟩
  · left
    cases stat <;> simp only [Stat.Better] at * <;> omega
  · left
    cases stat <;> simp only [Stat.Better] at * <;> omega
  · left
    cases stat <;> simp only [Stat.Better] at * <;> omega
  · exact Or.inr ⟨by rw [e₁, e₂], Stat.not_better_add h₁ h₂⟩

/-! ### The best of many -/

/-- The totals are among the given ones, and none of those are better. -/
def IsBest (stat : Stat) (S : Set Totals) (t : Totals) : Prop :=
  t ∈ S ∧ ∀ u ∈ S, AtLeast stat t u

variable {S T : Set Totals}

theorem IsBest.unique (h₁ : IsBest stat S a) (h₂ : IsBest stat S b) : a = b :=
  (h₁.2 b h₂.1).antisymm (h₂.2 a h₁.1)

/-- The best of some totals is the best of more of them, if each of these is matched by one of the
former. -/
theorem IsBest.of_subset (h : IsBest stat S a) (hST : S ⊆ T)
    (hmatch : ∀ u ∈ T, ∃ v ∈ S, AtLeast stat v u) : IsBest stat T a := by
  refine ⟨hST h.1, fun u hu => ?_⟩
  obtain ⟨v, hv, hvu⟩ := hmatch u hu
  exact (h.2 v hv).trans hvu

end Totals

end Gunsmith
