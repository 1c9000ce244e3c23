/-
  Values and their numbers.

  Values that are long, and that come up again and again, are told apart by numbers: a value
  gets the next number when it comes up first, and keeps it.  So two values have the same
  number exactly if they are equal, whenever each of them was asked for.
-/
import Std.Data.TreeMap

namespace Gunsmith

/-- The values that came up so far, and their numbers. -/
structure Numbering (α : Type) [Ord α] where
  numbers : Std.TreeMap α Nat
  /-- Numbers are given out in turn. -/
  lt_size : ∀ (a : α) (i : Nat), numbers[a]? = some i → i < numbers.size
  /-- No two values share a number. -/
  injective : ∀ (a b : α) (i : Nat), numbers[a]? = some i → numbers[b]? = some i → a = b

namespace Numbering

variable {α : Type} [Ord α] {n : Numbering α} {a b : α} {i j : Nat}

/-- The number of a value, if it came up before. -/
def number? (n : Numbering α) (a : α) : Option Nat := n.numbers[a]?

/-- How many numbers have been given out. -/
def size (n : Numbering α) : Nat := n.numbers.size

theorem lt_of_number? (h : n.number? a = some i) : i < n.size := n.lt_size a i h

theorem eq_of_number? (ha : n.number? a = some i) (hb : n.number? b = some i) : a = b :=
  n.injective a b i ha hb

variable [Std.TransOrd α]

/-- Before anything came up. -/
def empty : Numbering α where
  numbers := ∅
  lt_size a i h := by simp at h
  injective a b i h := by simp at h

@[simp]
theorem number?_empty : (empty : Numbering α).number? a = none :=
  Std.TreeMap.getElem?_emptyc

variable [Std.LawfulEqOrd α]

/-- The values that have a number once one more has got the next number. -/
theorem getElem?_insert_size : (n.numbers.insert a n.numbers.size)[b]? = some i ↔
    a = b ∧ i = n.size ∨ a ≠ b ∧ n.number? b = some i := by
  rw [Std.TreeMap.getElem?_insert]
  by_cases h : a = b
  · simp [h, size, eq_comm]
  · simp [h, number?]

/-- The numbering with a value that has not come up before. -/
def add (n : Numbering α) (a : α) (h : n.number? a = none) : Numbering α where
  numbers := n.numbers.insert a n.numbers.size
  lt_size b i hb := by
    have hnew : n.numbers.contains a = false := by
      rw [Std.TreeMap.contains_eq_isSome_getElem?, ← number?, h, Option.isSome_none]
    rw [Std.TreeMap.size_insert, hnew]
    rcases getElem?_insert_size.mp hb with ⟨-, rfl⟩ | ⟨-, hold⟩
    · exact Nat.lt_succ_self _
    · exact Nat.lt_succ_of_lt (lt_of_number? hold)
  injective b c i hb hc := by
    rcases getElem?_insert_size.mp hb with ⟨rfl, rfl⟩ | ⟨-, hold⟩ <;>
      rcases getElem?_insert_size.mp hc with ⟨rfl, hi⟩ | ⟨-, hold'⟩
    · rfl
    · exact absurd (lt_of_number? hold') (Nat.lt_irrefl _)
    · exact absurd (lt_of_number? hold) (hi ▸ Nat.lt_irrefl _)
    · exact eq_of_number? hold hold'

/-- The number of a value, and the numbering afterwards. -/
def number (n : Numbering α) (a : α) : Nat × Numbering α :=
  match h : n.number? a with
  | some i => (i, n)
  | none => (n.size, n.add a h)

theorem number_of_some (h : n.number? a = some i) : n.number a = (i, n) := by
  unfold number
  split
  · next j hj => rw [Option.some.inj (hj.symm.trans h)]
  · next hnone => rw [hnone] at h; cases h

theorem number_of_none (h : n.number? a = none) : n.number a = (n.size, n.add a h) := by
  unfold number
  split
  · next j hj => rw [hj] at h; cases h
  · rfl

/-- What has a number after a value was numbered: the value, and what had this number before. -/
theorem number?_number : (n.number a).2.number? b = some i ↔
    a = b ∧ i = (n.number a).1 ∨ a ≠ b ∧ n.number? b = some i := by
  rcases h : n.number? a with _ | j
  · rw [number_of_none h]
    exact getElem?_insert_size
  · rw [number_of_some h]
    by_cases hab : a = b
    · subst hab
      simp [h, eq_comm]
    · simp [hab]

theorem number?_number_self : (n.number a).2.number? a = some (n.number a).1 :=
  number?_number.mpr (Or.inl ⟨rfl, rfl⟩)

/-- Numbers are kept. -/
theorem number?_number_of_some (h : n.number? b = some i) :
    (n.number a).2.number? b = some i := by
  by_cases hab : a = b
  · subst hab
    rw [number_of_some h]
    exact h
  · exact number?_number.mpr (Or.inr ⟨hab, h⟩)

end Numbering

end Gunsmith
