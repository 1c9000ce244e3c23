/-
  Growing the tree of candidates edit by edit.

  The tables are filled while the catalogue is read: a slot is entered, the items that fit it
  are considered one by one, and each that becomes a candidate is entered, mounted and
  populated before the next one is considered.  When nothing is left to be read, items and
  slots are rated from the leaves up, the candidates for each slot are put into order, and
  those that cannot matter are dropped.

  The edits made are kept along with the tables, so that every stage of the growth can be
  told from its end.
-/
import Gunsmith.Tree.Arena
import Gunsmith.Tree.Candidates

namespace Gunsmith

/-- A growing tree. -/
structure Growth where
  arena : Arena
  registry : Declarations
  /-- The edits made so far. -/
  edits : List Edit

namespace Growth

/-- Before anything is entered. -/
def empty : Growth := ⟨.empty, .empty, []⟩

/-- The tree after an edit. -/
def edited (g : Growth) (e : Edit) : Growth :=
  { g with arena := g.arena.apply e, edits := g.edits ++ [e] }

/-- The tree with a candidate recorded, and what it declares, if it declares anything. -/
def registered (g : Growth) (id : String) (conflicts : List String) : Growth :=
  let registry := g.registry.addCandidate id
  { g with registry := if conflicts.isEmpty then registry else registry.declare id conflicts }

end Growth

/-- Steps of growth, which may fail.  They are without any outcome if a question about the tables is
without an answer. -/
abbrev Growing := ExceptT EvalError (StateT Growth Option)

namespace Growing

/-- The answer to a question about the tables. -/
def answer {α : Type} (question : Arena → Option α) : Growing α :=
  ExceptT.lift do StateT.lift (question (← get).arena)

/-- What reading the catalogue has brought. -/
def read {α : Type} (reading : Reading Id α) : Growing α :=
  match reading.run with
  | .ok found => pure found
  | .error e => throw e

/-- Makes an edit. -/
def edit (e : Edit) : Growing Unit := modify fun g => g.edited e

/-- Records a candidate and what it declares. -/
def register (id : String) (conflicts : List String) : Growing Unit :=
  modify fun g => g.registered id conflicts

end Growing

/-! ### Filling the tables -/

section Populate

variable (p : Provider Id) (c : Constraints)

/-- Considers an item that fits a slot, and mounts it if nothing speaks against it. -/
def tryAttach (s : Nat) (item : AllowedItem) : Growing (Option Nat) := do
  if c.Excludes item.id then
    return none
  let offers ← Growing.read (Reading.ask item.id (p.offers item.id))
  if ¬ c.levels.CanPurchase offers then
    return none
  if ← Growing.answer fun a => a.createsCycle s item.id then
    Growing.edit (.keepOut s item.id)
    return none
  let found ← Growing.read (Reading.ask item.id (p.properties item.id))
  Growing.register item.id found.conflicts
  let child ← Growing.answer fun a => some a.items.length
  let label : Label :=
    ⟨item.id, item.name, .attachment, found.modifiers, NameSet.ofList found.conflicts, false⟩
  Growing.edit (.item (.ofLabel label (some s)))
  Growing.edit (.mount s child)
  return some child

/-- Opens a slot of an item and considers what fits it; what is mounted is populated by the given
means before the next item is considered. -/
def openSlot (populate : Nat → Growing Unit) (i : Nat) (ownerId : String) (row : SlotRecord) :
    Growing Unit := do
  let s ← Growing.answer fun a => some a.slots.length
  Growing.edit (.slot (.ofRecord row i))
  let allowed ← Growing.read (Reading.ask ownerId (p.allowed row.id))
  allowed.forM fun item => do
    if let some child ← tryAttach p c s item then
      populate child

/-- Opens the slots of an item, and mounts and populates what fits them, down to a depth. -/
def populate : Nat → Nat → Growing Unit
  | 0, i => do
    let node ← Growing.answer fun a => a.items[i]?
    let rows ← Growing.read (Reading.ask node.id (p.slots node.id))
    if ¬ rows.isEmpty then
      Growing.edit .cut
  | depth + 1, i => do
    let node ← Growing.answer fun a => a.items[i]?
    let rows ← Growing.read (Reading.ask node.id (p.slots node.id))
    (rows.filter fun row => ¬ c.Ignores row.name).forM (openSlot p c (populate depth) i node.id)

end Populate

/-! ### Finishing the tree -/

/-- The rating of a slot: nothing at all, or one of the candidates. -/
def Rating.ofSlot (candidates : List Rating) : Rating :=
  ⟨(candidates.map Rating.bounds).foldl (· ∪ ·) (.point 0), candidates.all Rating.conflictFree⟩

/-- The rating of an item: its own modifiers and the ratings of its slots. -/
def Rating.ofItem (m : ConflictMap) (id : String) (modifiers : Totals) (slots : List Rating) :
    Rating :=
  ⟨(slots.map Rating.bounds).foldl (· + ·) (.point modifiers),
    decide (¬ m.Live id) && slots.all Rating.conflictFree⟩

/-- Rates a slot once its candidates have been rated. -/
def rateSlot (rate : Nat → Growing Rating) (s : Nat) : Growing Rating := do
  let slot ← Growing.answer fun a => a.slots[s]?
  let rating := Rating.ofSlot (← slot.candidates.mapM rate)
  Growing.edit (.rateSlot s rating.bounds)
  return rating

/-- Rates the items and slots at and below an item, from the leaves up. -/
def annotate (m : ConflictMap) : Nat → Nat → Growing Rating
  | 0, _ => Growing.answer fun _ => none
  | steps + 1, i => do
    let node ← Growing.answer fun a => a.items[i]?
    let slots ← node.slots.mapM (rateSlot (annotate m steps))
    let rating := Rating.ofItem m node.id node.modifiers slots
    Growing.edit (.rateItem i rating.bounds rating.conflictFree)
    return rating

/-- Rates the tree. -/
def annotateAll (m : ConflictMap) : Growing Rating := do
  annotate m (← Growing.answer fun a => some a.items.length) 0

namespace ItemNode

/-- Candidate `a` is tried no later than candidate `b`. -/
def Precedes (stat : Stat) (a b : ItemNode) : Prop :=
  stat.Better (a.bounds.best stat) (b.bounds.best stat) ∨
    (a.bounds.best stat = b.bounds.best stat ∧
      (stat.Better (a.modifiers.pick stat) (b.modifiers.pick stat) ∨
        (a.modifiers.pick stat = b.modifiers.pick stat ∧ a.id ≤ b.id)))

instance (stat : Stat) (a b : ItemNode) : Decidable (a.Precedes stat b) :=
  inferInstanceAs (Decidable (_ ∨ _))

/-- What a candidate is judged by. -/
def rating (node : ItemNode) : Rating := ⟨node.bounds, node.conflictFree⟩

end ItemNode

/-- Chooses among candidates: those that stay, in order, and the ids of those that are dropped. -/
abbrev Choice := List (Nat × ItemNode) → List (Nat × ItemNode) × List String

/-- All candidates, in the order in which they are tried. -/
def Choice.inOrder (stat : Stat) : Choice := fun candidates =>
  (candidates.mergeSort fun a b => decide (a.2.Precedes stat b.2), [])

/-- The candidates that no other one removes. -/
def Choice.unremoved (stat : Stat) : Choice := fun candidates =>
  let marks := Rating.removed stat (candidates.map fun c => c.2.rating)
  (selectMarked false candidates marks, (selectMarked true candidates marks).map fun c => c.2.id)

/-- Chooses anew among the candidates for a slot, and counts those that are dropped. -/
def reselect (choice : Choice) (s : Nat) : Growing Nat := do
  let slot ← Growing.answer fun a => a.slots[s]?
  let candidates ← Growing.answer fun a =>
    slot.candidates.mapM fun i => a.items[i]?.map fun node => (i, node)
  let (kept, dropped) := choice candidates
  Growing.edit (.select s (kept.map Prod.fst) dropped)
  return dropped.length

/-- Chooses anew among the candidates for every slot, and counts those that are dropped. -/
def reselectAll (choice : Choice) : Growing Nat := do
  let slots ← Growing.answer fun a => some (List.range a.slots.length)
  return total (← slots.mapM (reselect choice))

/-- Rates, orders and prunes a tree that is populated. -/
def finish (m : ConflictMap) (stat : Stat) : Growing Unit := do
  let _ ← annotateAll m
  let _ ← reselectAll (.inOrder stat)
  let dropped ← reselectAll (.unremoved stat)
  if 0 < dropped then
    let _ ← annotateAll m

/-- Grows the tree for a request. -/
def grow (p : Provider Id) (maxDepth : Nat) (weaponId : String) (stat : Stat) (c : Constraints) :
    Growing ConflictMap := do
  match c.validate with
  | .error detail => throw (.invalidConfiguration detail)
  | .ok () =>
    let w ← Growing.read (Reading.ask weaponId (p.weapon weaponId))
    Growing.edit (.item (.ofLabel (CandidateTree.rootLabel w) none))
    populate p c maxDepth 0
    let m := (← getThe Growth).registry.symmetric
    finish m stat
    return m

end Gunsmith
