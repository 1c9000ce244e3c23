/-
  Solutions of sub-problems, and the table that remembers them.

  A sub-problem is a list of slots still to decide together with the items that are
  excluded meanwhile.  Its solution is the best there is: the sums over what is mounted
  and a selection for each slot that was decided.  Slots are told apart by their address
  and a set of names has one representation, so two sub-problems share an entry of the
  table exactly if they have the same slots in the same order and exclude the same items.
-/
import Gunsmith.Build
import Gunsmith.Tree.Basic
import Std.Data.TreeMap

namespace Gunsmith

/-- The best way to decide some slots. -/
structure Solution where
  sums : Totals
  selections : List Selection
deriving DecidableEq, Inhabited

namespace Solution

/-- The solution when nothing is left to decide. -/
def empty : Solution := ⟨0, []⟩

/-- Puts a decision in front of the solutions of what it leaves open. -/
def prepend (selection : Selection) (own : Totals) (rest : List Solution) : Solution where
  sums := rest.foldl (fun sums s => sums + s.sums) own
  selections := selection :: rest.flatMap Solution.selections

/-- Solution `a` is strictly better than `b` with a stat in focus. -/
def Better (stat : Stat) (a b : Solution) : Prop :=
  Totals.Better stat a.sums b.sums

instance (stat : Stat) (a b : Solution) : Decidable (a.Better stat b) :=
  inferInstanceAs (Decidable (Totals.Better ..))

end Solution

/-- The selection that leaves a slot empty or puts an item into it. -/
def Slot.select (slot : Slot) (part : Option Part) : Selection where
  parentId := slot.site.ownerId
  slotId := slot.site.id
  slotName := slot.site.name
  itemId := part.map Part.id
  itemName := part.map fun part => part.label.name

/-- What identifies a sub-problem: the addresses of its slots, and what is excluded. -/
abbrev Subproblem := List (List Nat) × List String

namespace Subproblem

/-- The sub-problem of deciding some slots while some items are excluded. -/
def of (slots : List Slot) (excluded : NameSet) : Subproblem :=
  (slots.map fun slot => slot.site.address, excluded.toList)

/-- An order of sub-problems, for the table. -/
def cmp : Subproblem → Subproblem → Ordering :=
  compareLex (compareOn Prod.fst) (compareOn Prod.snd)

end Subproblem

/-- The solutions found so far. -/
abbrev Memo := Std.TreeMap Subproblem Solution Subproblem.cmp

end Gunsmith
