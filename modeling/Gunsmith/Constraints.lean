/-
  The constraints of an evaluation.

  A request fixes what may be bought (the buyer's trader levels), which slots are left
  out of consideration (by their names) and which items may not be used (by their ids).
  Stored results are found by the written form of the constraints (`Constraints.key`).
-/
import Gunsmith.Text.NameSet
import Gunsmith.Trader

namespace Gunsmith

/-- What a build may use. -/
structure Constraints where
  levels : TraderLevels
  ignoredSlots : NameSet
  excludedItems : NameSet
deriving Inhabited

namespace Constraints

/-- The constraints that exclude nothing beyond what the levels do. -/
def ofLevels (levels : TraderLevels) : Constraints := ⟨levels, ∅, ∅⟩

/-- The constraints with one more slot name to leave out. -/
def ignoreSlot (c : Constraints) (name : String) : Constraints :=
  { c with ignoredSlots := c.ignoredSlots.insert name }

/-- The constraints with one more item that may not be used. -/
def excludeItem (c : Constraints) (id : String) : Constraints :=
  { c with excludedItems := c.excludedItems.insert id }

/-- Accepts levels in range and names that are not all blank, and otherwise says what is wrong
first. -/
def validate (c : Constraints) : Except String Unit := do
  c.levels.validate
  if c.ignoredSlots.toList.any Text.isAllBlank then
    throw "忽略槽位名称不能为空"
  if c.excludedItems.toList.any Text.isAllBlank then
    throw "排除物品 ID 不能为空"

/-- Nothing is ignored and nothing excluded. -/
def IsDefault (c : Constraints) : Prop :=
  c.ignoredSlots.isEmpty = true ∧ c.excludedItems.isEmpty = true

instance (c : Constraints) : Decidable c.IsDefault :=
  inferInstanceAs (Decidable (_ ∧ _))

/-- The slots of this name are left out. -/
def Ignores (c : Constraints) (slotName : String) : Prop := slotName ∈ c.ignoredSlots

instance (c : Constraints) (slotName : String) : Decidable (c.Ignores slotName) :=
  inferInstanceAs (Decidable (_ ∈ _))

/-- The item may not be used. -/
def Excludes (c : Constraints) (id : String) : Prop := id ∈ c.excludedItems

instance (c : Constraints) (id : String) : Decidable (c.Excludes id) :=
  inferInstanceAs (Decidable (_ ∈ _))

/-- The written form: `Prapor=4|ignore=mod_scope|exclude=`. -/
def key (c : Constraints) : String :=
  let ignored := ",".intercalate c.ignoredSlots.toList
  let excluded := ",".intercalate c.excludedItems.toList
  s!"{c.levels.key}|ignore={ignored}|exclude={excluded}"

end Constraints

end Gunsmith
