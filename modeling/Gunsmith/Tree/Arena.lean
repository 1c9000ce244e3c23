/-
  The tree of candidates as numbered nodes.

  While the tree grows, its items and slots stand in two tables and refer to each other by
  their numbers.  Who belongs to whom is written down twice: an item lists its slots and a
  slot names the item that has it; a slot lists its candidates and an item names the slot in
  which it stands.  A candidate that is dropped from its slot stays in the table and still
  names the slot.

  A tree changes by one `Edit` at a time.

  Nothing in the tables themselves keeps a number from leading nowhere, or a way from leading
  round in a circle.  So questions about a tree are asked for a number of steps, and they are
  without an answer if these do not suffice.  As many steps are allowed as there are items: a way
  that takes more comes to some item twice.
-/
import Gunsmith.Bounds
import Gunsmith.Conflict
import Gunsmith.Tree.Basic

namespace Gunsmith

/-- An item in the table of items. -/
structure ItemNode where
  id : String
  name : String
  kind : ItemKind
  modifiers : Totals
  /-- The conflicts that the item declares. -/
  declared : NameSet
  /-- The slots opened for the item, in the order of the catalogue. -/
  slots : List Nat
  /-- The slot in which the item stands; the weapon stands in none. -/
  parentSlot : Option Nat
  bounds : Bounds
  conflictFree : Bool

/-- A slot in the table of slots. -/
structure SlotNode where
  id : String
  name : String
  /-- The item that has the slot. -/
  parentItem : Nat
  candidates : List Nat
  bounds : Bounds
  /-- The items kept out of the slot because their placement is on the way to it already. -/
  cyclic : List String
  /-- The items dropped from the slot in favour of another candidate. -/
  pruned : List String

/-- A new item, without slots and not yet rated. -/
def ItemNode.ofLabel (label : Label) (parentSlot : Option Nat) : ItemNode :=
  { id := label.id
    name := label.name
    kind := label.kind
    modifiers := label.modifiers
    declared := label.declared
    slots := []
    parentSlot := parentSlot
    bounds := .point 0
    conflictFree := true }

/-- A new slot of an item, without candidates and not yet rated. -/
def SlotNode.ofRecord (row : SlotRecord) (parentItem : Nat) : SlotNode :=
  { id := row.id
    name := row.name
    parentItem := parentItem
    candidates := []
    bounds := .point 0
    cyclic := []
    pruned := [] }

/-- The two tables. -/
structure Arena where
  items : List ItemNode
  slots : List SlotNode
  /-- The depth limit kept some slots closed. -/
  truncated : Bool

/-- One change of the tables. -/
inductive Edit where
  /-- An item is entered. -/
  | item (node : ItemNode)
  /-- A slot is entered, and listed by the item that has it. -/
  | slot (node : SlotNode)
  /-- An item becomes the last candidate for a slot. -/
  | mount (slot item : Nat)
  /-- An item is kept out of a slot. -/
  | keepOut (slot : Nat) (id : String)
  /-- The slots of some item stay closed. -/
  | cut
  /-- An item is rated. -/
  | rateItem (item : Nat) (bounds : Bounds) (conflictFree : Bool)
  /-- A slot is rated. -/
  | rateSlot (slot : Nat) (bounds : Bounds)
  /-- The candidates for a slot are put into another order, or some are dropped. -/
  | select (slot : Nat) (candidates : List Nat) (dropped : List String)

namespace Arena

/-- The tables before anything is entered. -/
def empty : Arena := ⟨[], [], false⟩

/-- Changes one item. -/
def modifyItem (a : Arena) (i : Nat) (f : ItemNode → ItemNode) : Arena :=
  { a with items := a.items.modify i f }

/-- Changes one slot. -/
def modifySlot (a : Arena) (s : Nat) (f : SlotNode → SlotNode) : Arena :=
  { a with slots := a.slots.modify s f }

/-- The tables after a change. -/
def apply (a : Arena) : Edit → Arena
  | .item node => { a with items := a.items ++ [node] }
  | .slot node =>
    { a with slots := a.slots ++ [node] }.modifyItem node.parentItem fun owner =>
      { owner with slots := owner.slots ++ [a.slots.length] }
  | .mount s i => a.modifySlot s fun slot => { slot with candidates := slot.candidates ++ [i] }
  | .keepOut s id => a.modifySlot s fun slot => { slot with cyclic := slot.cyclic ++ [id] }
  | .cut => { a with truncated := true }
  | .rateItem i bounds conflictFree =>
    a.modifyItem i fun node => { node with bounds := bounds, conflictFree := conflictFree }
  | .rateSlot s bounds => a.modifySlot s fun slot => { slot with bounds := bounds }
  | .select s candidates dropped =>
    a.modifySlot s fun slot =>
      { slot with candidates := candidates, pruned := slot.pruned ++ dropped }

/-! ### Questions about a tree -/

/-- The number of steps from an item up to the weapon, added to those already taken. -/
def depthFrom (a : Arena) : Nat → Nat → Nat → Option Nat
  | 0, _, _ => none
  | steps + 1, i, taken => do
    let node ← a.items[i]?
    match node.parentSlot with
    | none => return taken
    | some s =>
      let slot ← a.slots[s]?
      a.depthFrom steps slot.parentItem (taken + 1)

/-- The distance of an item from the weapon. -/
def depth (a : Arena) (i : Nat) : Option Nat := a.depthFrom a.items.length i 0

/-- On the way up from an item, some item of the given id stands in a slot of the given id. -/
def placedAbove (a : Arena) (itemId slotId : String) : Nat → Nat → Option Bool
  | 0, _ => none
  | steps + 1, i => do
    let node ← a.items[i]?
    match node.parentSlot with
    | none => return false
    | some s =>
      let slot ← a.slots[s]?
      if node.id = itemId ∧ slot.id = slotId then
        return true
      a.placedAbove itemId slotId steps slot.parentItem

/-- Putting the item into the slot would repeat a placement on the way to it. -/
def createsCycle (a : Arena) (s : Nat) (itemId : String) : Option Bool := do
  let slot ← a.slots[s]?
  a.placedAbove itemId slot.id a.items.length slot.parentItem

/-- The candidates for all slots of an item. -/
def below (a : Arena) (node : ItemNode) : Option (List Nat) := do
  let slots ← node.slots.mapM fun s => a.slots[s]?
  return slots.flatMap SlotNode.candidates

/-- Visits the items on a stack and everything below them, the top of the stack first. -/
def visitFrom (a : Arena) : Nat → List Nat → List (Nat × ItemNode) → Option (List (Nat × ItemNode))
  | _, [], visited => some visited
  | 0, _ :: _, _ => none
  | steps + 1, i :: rest, visited => do
    let node ← a.items[i]?
    let candidates ← a.below node
    a.visitFrom steps (candidates.reverse ++ rest) (visited ++ [(i, node)])

/-- The items at and below an item, in the order in which they are visited. -/
def visits (a : Arena) (i : Nat) : Option (List (Nat × ItemNode)) :=
  a.visitFrom a.items.length [i] []

/-- The ids of the items at and below an item. -/
def subtreeIds (a : Arena) (i : Nat) : Option (List String) := do
  return (← a.visits i).map fun (_, node) => node.id

/-- The number of items that are attached to the tree, the weapon included. -/
def attachedCount (a : Arena) : Option Nat := do
  return (← a.subtreeIds 0).length

/-- The length of the longest way down from an item. -/
def heightFrom (a : Arena) : Nat → Nat → Option Nat
  | 0, _ => none
  | steps + 1, i => do
    let node ← a.items[i]?
    let candidates ← a.below node
    let heights ← candidates.mapM fun c => return 1 + (← a.heightFrom steps c)
    return heights.foldl max 0

/-- The height of the tree. -/
def height (a : Arena) : Option Nat := a.heightFrom a.items.length 0

end Arena

end Gunsmith
