/-
  What can be reached below an item.

  `Part.bounds` is the range of the sums over all ways to fill the slots below an item,
  conflicts left aside; a slot may always stay empty, so its range holds zero.
  `Part.conflictFree` holds of an item when neither it nor anything below it is in
  conflict with any candidate of the tree: then nothing that is chosen elsewhere can
  forbid a choice below it, and the other way round.
-/
import Gunsmith.Tree.Basic

namespace Gunsmith

/-- The range of an item: its own modifiers and the ranges of its slots. -/
def Bounds.ofItem (label : Label) (slots : List Bounds) : Bounds :=
  slots.foldl (· + ·) (.point label.modifiers)

/-- The range of a slot: nothing at all, or one of the candidates. -/
def Bounds.ofSlot (_ : Site) (candidates : List Bounds) : Bounds :=
  candidates.foldl (· ∪ ·) (.point 0)

/-- The range of the sums over an item and all ways to fill the slots below it. -/
def Part.bounds : Part → Bounds :=
  Part.fold Bounds.ofItem Bounds.ofSlot

/-- The range of the sums over all ways to fill a slot and the slots below it. -/
def Slot.bounds : Slot → Bounds :=
  Slot.fold Bounds.ofItem Bounds.ofSlot

/-- Nothing at or below the item is in conflict with a candidate of the tree. -/
def Part.conflictFree (m : ConflictMap) : Part → Bool :=
  Part.fold (fun label free => decide (¬ m.Live label.id) && free.all fun f => f)
    (fun _ free => free.all fun f => f)

/-- What the items below the top of a tree declare, and that they are candidates. -/
def Part.declarations (part : Part) : Declarations :=
  part.labels.tail.foldl
    (fun d label => (d.addCandidate label.id).declare label.id label.declared.toList) .empty

end Gunsmith
