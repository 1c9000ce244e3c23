/-
  Builds: what an evaluation answers.

  A build says for every slot that was opened what stands in it (`Selection`), in the
  order in which the slots were decided, and gives the sums of both stats over the
  weapon and all that is mounted on it.
-/
import Gunsmith.Stat

namespace Gunsmith

/-- What stands in one slot: an item, or nothing. -/
structure Selection where
  /-- The item that has the slot. -/
  parentId : String
  slotId : String
  slotName : String
  itemId : Option String
  itemName : Option String
deriving DecidableEq, Inhabited

/-- The ids of the items that a list of selections mounts, in the order of decision. -/
def chosenIds (selections : List Selection) : List String :=
  selections.filterMap Selection.itemId

/-- A build of a weapon for a stat. -/
structure BuildResult where
  itemId : String
  itemName : String
  stat : Stat
  /-- The sums over the weapon and everything mounted. -/
  sums : Totals
  selections : List Selection
deriving DecidableEq, Inhabited

/-- The sum that the evaluation was about. -/
def BuildResult.focusedSum (r : BuildResult) : Int :=
  r.sums.pick r.stat

/-- The best way to fill the slots below one item when nothing is excluded. -/
structure CacheEntry where
  itemId : String
  stat : Stat
  /-- The sums over the item itself and everything mounted below it. -/
  sums : Totals
  selections : List Selection
deriving DecidableEq, Inhabited

/-- The entry with the numbers and selections of a build. -/
def CacheEntry.ofResult (r : BuildResult) : CacheEntry :=
  ⟨r.itemId, r.stat, r.sums, r.selections⟩

end Gunsmith
