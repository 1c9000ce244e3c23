/-
  Sums of lists.

  The sum of the library takes its zero from whatever structure of the numbers is in scope, which is
  not the same one in all modules.  `total` starts with the numeral.  It is the same sum, so what is
  known of that one holds of it.
-/
namespace Gunsmith

section Total

variable {α : Type} [Add α] [OfNat α 0]

/-- The sum of some numbers. -/
def total (ns : List α) : α := ns.foldr (· + ·) 0

@[simp]
theorem total_nil : total ([] : List α) = 0 := rfl

@[simp]
theorem total_cons (n : α) (ns : List α) : total (n :: ns) = n + total ns := rfl

end Total

/-! ### Sums of counts -/

theorem total_append (ms ns : List Nat) : total (ms ++ ns) = total ms + total ns :=
  List.sum_append_nat

theorem le_total_of_mem {n : Nat} {ns : List Nat} (h : n ∈ ns) : n ≤ total ns := by
  induction h with
  | head ns => exact Nat.le_add_right n (total ns)
  | tail m _ ih => exact Nat.le_trans ih (Nat.le_add_left _ m)

theorem length_flatMap_eq_total {β γ : Type} (f : β → List γ) (xs : List β) :
    (xs.flatMap f).length = total (xs.map fun x => (f x).length) :=
  List.length_flatMap

end Gunsmith
