/-
  The tree of candidates.

  A weapon has slots, a slot has candidates, a candidate is an item that has slots of
  its own.  `Part` is an item at its place in the tree, `Slot` a slot at its place; the
  two types are built from each other, so a tree has no loops and no node is shared,
  although the catalogue may well hold items that fit into each other in circles.

  Two notions tell places apart.  The `address` of a slot is the list of positions on
  the way to it, and is different for any two slots of a tree.  The `chain` of a slot
  is the list of placements (which item stands in which slot) on the way to it; the
  weapon itself stands in none.  An item may stand in a slot only if this placement is
  not on the slot's chain already, which is what keeps circles out.

  Everything that is computed over a tree from the leaves up is a `fold`.
-/
import Gunsmith.Bounds
import Gunsmith.Conflict
import Gunsmith.Constraints
import Gunsmith.Item

namespace Gunsmith

/-- An item standing in a slot. -/
structure Placement where
  itemId : String
  slotId : String
deriving DecidableEq, Inhabited

/-- What a node of the tree knows of its item. -/
structure Label where
  id : String
  name : String
  kind : ItemKind
  modifiers : Totals
  /-- The conflicts that the item declares. -/
  declared : NameSet
  /-- The item has slots that the depth limit kept closed. -/
  cut : Bool
deriving Inhabited

/-- What a node of the tree knows of its slot. -/
structure Site where
  id : String
  name : String
  /-- The item that has the slot. -/
  ownerId : String
  /-- The positions on the way from the weapon to the slot, the last one first. -/
  address : List Nat
  /-- The placements on the way from the weapon to the slot, the last one first. -/
  chain : List Placement
  /-- The items kept out of the slot because their placement is on the chain already. -/
  cyclic : List String
  /-- The items dropped from the slot in favour of another candidate. -/
  pruned : List String
deriving Inhabited

/-- Putting the item into the slot would repeat a placement on the way to it. -/
def Site.WouldCycle (site : Site) (id : String) : Prop :=
  (⟨id, site.id⟩ : Placement) ∈ site.chain

instance (site : Site) (id : String) : Decidable (site.WouldCycle id) :=
  inferInstanceAs (Decidable (_ ∈ _))

mutual

/-- An item at its place in the tree, with the slots opened below it. -/
inductive Part where
  | mk (label : Label) (slots : List Slot)

/-- A slot at its place in the tree, with the items that may stand in it. -/
inductive Slot where
  | mk (site : Site) (candidates : List Part)

end

instance : Inhabited Part := ⟨.mk default []⟩

instance : Inhabited Slot := ⟨.mk default []⟩

namespace Part

/-- The item at the node. -/
def label : Part → Label
  | .mk label _ => label

/-- The slots opened below the node. -/
def slots : Part → List Slot
  | .mk _ slots => slots

/-- The id of the item at the node. -/
def id (part : Part) : String := part.label.id

end Part

namespace Slot

/-- The slot at the node. -/
def site : Slot → Site
  | .mk site _ => site

/-- The items that may stand in the slot. -/
def candidates : Slot → List Part
  | .mk _ candidates => candidates

end Slot

/-! ### Folding a tree -/

section Fold

variable {α β : Type} (item : Label → List β → α) (slot : Site → List α → β)

mutual

/-- Computes a value from the leaves up: `item` at the items, `slot` at the slots. -/
def Part.fold : Part → α
  | .mk label slots => item label (Slot.foldAll slots)

/-- The fold of a slot. -/
def Slot.fold : Slot → β
  | .mk site candidates => slot site (Part.foldAll candidates)

/-- The folds of a list of slots. -/
def Slot.foldAll : List Slot → List β
  | [] => []
  | s :: ss => Slot.fold s :: Slot.foldAll ss

/-- The folds of a list of items. -/
def Part.foldAll : List Part → List α
  | [] => []
  | c :: cs => Part.fold c :: Part.foldAll cs

end

@[simp]
theorem Slot.foldAll_eq_map (ss : List Slot) :
    Slot.foldAll item slot ss = ss.map (Slot.fold item slot) := by
  induction ss with
  | nil => simp [Slot.foldAll]
  | cons s ss ih => simp [Slot.foldAll, ih]

@[simp]
theorem Part.foldAll_eq_map (cs : List Part) :
    Part.foldAll item slot cs = cs.map (Part.fold item slot) := by
  induction cs with
  | nil => simp [Part.foldAll]
  | cons c cs ih => simp [Part.foldAll, ih]

/-- A fold at an item is computed from the folds of its slots. -/
theorem Part.fold_mk (label : Label) (slots : List Slot) :
    Part.fold item slot (.mk label slots) = item label (slots.map (Slot.fold item slot)) := by
  simp [Part.fold]

/-- A fold at a slot is computed from the folds of its candidates. -/
theorem Slot.fold_mk (site : Site) (candidates : List Part) :
    Slot.fold item slot (.mk site candidates) =
      slot site (candidates.map (Part.fold item slot)) := by
  simp [Slot.fold]

end Fold

/-- What holds of an item as soon as it holds of all candidates for its slots, holds of every
item. -/
theorem Part.induct {motive : Part → Prop}
    (mk : ∀ label slots, (∀ s ∈ slots, ∀ c ∈ s.candidates, motive c) → motive (.mk label slots)) :
    ∀ part, motive part := by
  intro part
  refine Part.rec (motive_1 := motive) (motive_2 := fun s => ∀ c ∈ s.candidates, motive c)
    (motive_3 := fun ss => ∀ s ∈ ss, ∀ c ∈ s.candidates, motive c)
    (motive_4 := fun cs => ∀ c ∈ cs, motive c) ?_ ?_ ?_ ?_ ?_ ?_ part
  · exact fun label slots h => mk label slots h
  · exact fun site candidates h => h
  · exact fun s hs => absurd hs List.not_mem_nil
  · intro s ss hs hss t ht
    rcases List.mem_cons.mp ht with rfl | ht
    · exact hs
    · exact hss t ht
  · exact fun c hc => absurd hc List.not_mem_nil
  · intro c cs hc hcs d hd
    rcases List.mem_cons.mp hd with rfl | hd
    · exact hc
    · exact hcs d hd

/-! ### Sizes and listings -/

/-- The number of slots in the tree below an item. -/
def Part.slotCount : Part → Nat :=
  Part.fold (fun _ counts => total counts) (fun _ counts => 1 + total counts)

/-- The number of slots in the tree at a slot, itself included. -/
def Slot.slotCount : Slot → Nat :=
  Slot.fold (fun _ counts => total counts) (fun _ counts => 1 + total counts)

/-- The number of slots in the trees at some slots. -/
def Slot.totalCount (slots : List Slot) : Nat :=
  total (slots.map Slot.slotCount)

/-- The number of slots in the trees below some items. -/
def Part.totalCount (parts : List Part) : Nat :=
  total (parts.map Part.slotCount)

theorem Part.slotCount_eq (part : Part) : part.slotCount = Slot.totalCount part.slots := by
  obtain ⟨label, slots⟩ := part
  exact Part.fold_mk ..

theorem Slot.slotCount_eq (slot : Slot) :
    slot.slotCount = 1 + Part.totalCount slot.candidates := by
  obtain ⟨site, candidates⟩ := slot
  exact Slot.fold_mk ..

@[simp]
theorem Slot.totalCount_nil : Slot.totalCount [] = 0 := rfl

@[simp]
theorem Slot.totalCount_cons (s : Slot) (ss : List Slot) :
    Slot.totalCount (s :: ss) = s.slotCount + Slot.totalCount ss := rfl

@[simp]
theorem Slot.totalCount_append (ss ts : List Slot) :
    Slot.totalCount (ss ++ ts) = Slot.totalCount ss + Slot.totalCount ts := by
  rw [Slot.totalCount, List.map_append, total_append]
  rfl

@[simp]
theorem Part.totalCount_cons (c : Part) (cs : List Part) :
    Part.totalCount (c :: cs) = c.slotCount + Part.totalCount cs := rfl

/-- The ids of the items at and below an item; of siblings, the last comes first. -/
def Part.ids : Part → List String :=
  Part.fold (fun label idss => label.id :: idss.reverse.flatten)
    (fun _ idss => idss.reverse.flatten)

/-- The items at and below an item, each before the items below it and siblings in order. -/
def Part.labels : Part → List Label :=
  Part.fold (fun label labels => label :: labels.flatten) (fun _ labels => labels.flatten)

/-- The number of items at and below an item. -/
def Part.size (part : Part) : Nat := part.labels.length

/-- The length of the longest way down from an item. -/
def Part.height : Part → Nat :=
  Part.fold (fun _ heights => heights.foldl max 0)
    (fun _ heights => (heights.map (· + 1)).foldl max 0)

/-- Some item at or below this one has slots that the depth limit kept closed. -/
def Part.truncated : Part → Bool :=
  Part.fold (fun label cuts => label.cut || cuts.any fun cut => cut)
    (fun _ cuts => cuts.any fun cut => cut)

mutual

/-- The slots below an item. -/
def Part.allSlots : Part → List Slot
  | .mk _ slots => Slot.allSlotsOf slots

/-- The slots at and below a slot. -/
def Slot.allSlots : Slot → List Slot
  | .mk site candidates => .mk site candidates :: Part.allSlotsOf candidates

/-- The slots at and below some slots. -/
def Slot.allSlotsOf : List Slot → List Slot
  | [] => []
  | s :: ss => Slot.allSlots s ++ Slot.allSlotsOf ss

/-- The slots below some items. -/
def Part.allSlotsOf : List Part → List Slot
  | [] => []
  | c :: cs => Part.allSlots c ++ Part.allSlotsOf cs

end

/-- A node of the tree with its distance from the top and the slot in which it stands. -/
structure Part.Node where
  depth : Nat
  slotId : Option String
  part : Part

mutual

/-- The items at and below an item, each before the items below it, with their places. -/
def Part.nodes (depth : Nat) (slotId : Option String) : Part → List Part.Node
  | .mk label slots => ⟨depth, slotId, .mk label slots⟩ :: Slot.nodesOf depth slots

/-- The candidates for a slot of an item at the given depth, and all below them. -/
def Slot.nodes (depth : Nat) : Slot → List Part.Node
  | .mk site candidates => Part.nodesOf (depth + 1) (some site.id) candidates

/-- The candidates for some slots, and all below them. -/
def Slot.nodesOf (depth : Nat) : List Slot → List Part.Node
  | [] => []
  | s :: ss => Slot.nodes depth s ++ Slot.nodesOf depth ss

/-- Some candidates at the given depth for the given slot, and all below them. -/
def Part.nodesOf (depth : Nat) (slotId : Option String) : List Part → List Part.Node
  | [] => []
  | c :: cs => Part.nodes depth slotId c ++ Part.nodesOf depth slotId cs

end

end Gunsmith
