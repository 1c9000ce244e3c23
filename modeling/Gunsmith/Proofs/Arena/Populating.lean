/-
  Populating follows the expansion.

  Both open the slots of an item in the order of the catalogue, consider the items that fit them,
  and go on below each that is mounted.  What the expansion returns in the end, the tables have
  grown by: the new entries hold the expanded item (`mirrors_populate`), and of the entries that
  were there only the one of the item itself has changed.

  The expansion carries the placements on the way along, while the growing tree is climbed for
  them; that this comes to the same is said by `Arena.Chain`.
-/
import Gunsmith.Proofs.Arena.Held
import Gunsmith.Proofs.Arena.Mirroring
import Gunsmith.Proofs.Arena.Traversal
import Gunsmith.Proofs.Conflict.Closure

namespace Gunsmith

/-! ### The way up -/

/-- The placements on the way from an item up to the weapon, the nearest one first. -/
def Arena.Chain (a : Arena) : Nat → List Placement → Prop
  | i, [] => ∃ node, a.items[i]? = some node ∧ node.parentSlot = none
  | i, placement :: chain => ∃ node s slot, a.items[i]? = some node ∧ node.parentSlot = some s ∧
      a.slots[s]? = some slot ∧ placement = ⟨node.id, slot.id⟩ ∧ a.Chain slot.parentItem chain

namespace Arena.Chain

variable {a : Arena} {i s : Nat} {chain : List Placement} {itemId slotId : String}

theorem placedAbove (h : a.Chain i chain) {steps : Nat} (hsteps : chain.length < steps) :
    a.placedAbove itemId slotId steps i = some (decide (⟨itemId, slotId⟩ ∈ chain)) := by
  induction chain generalizing i steps with
  | nil =>
    obtain ⟨node, hnode, hparent⟩ := h
    obtain ⟨steps, rfl⟩ : ∃ k, steps = k + 1 := ⟨steps - 1, by omega⟩
    rw [Arena.placedAbove]
    simp [hnode, hparent]
  | cons placement chain ih =>
    obtain ⟨node, s, slot, hnode, hparent, hslot, rfl, hrest⟩ := h
    obtain ⟨steps, rfl⟩ : ∃ k, steps = k + 1 := ⟨steps - 1, by omega⟩
    rw [List.length_cons] at hsteps
    have hrest' := ih hrest (Nat.lt_of_succ_lt_succ hsteps)
    rw [Arena.placedAbove]
    simp only [hnode, hparent, hslot, Option.bind_eq_bind, Option.bind_some, hrest']
    by_cases hhere : node.id = itemId ∧ slot.id = slotId
    · simp [hhere]
    · have hne : (⟨itemId, slotId⟩ : Placement) ≠ ⟨node.id, slot.id⟩ := by
        rintro heq
        injection heq with hid hslot'
        exact hhere ⟨hid.symm, hslot'.symm⟩
      simp [hhere, hne]

/-- The numbers fall on the way up, so there are no more placements than items before. -/
theorem length_le (h : a.Chain i chain) (hwf : a.WellFormed) : chain.length ≤ i := by
  induction chain generalizing i with
  | nil => exact Nat.zero_le i
  | cons placement chain ih =>
    obtain ⟨node, s, slot, hnode, hparent, hslot, -, hrest⟩ := h
    have hup : a.Parent i slot.parentItem := by
      refine ⟨s, ?_, Arena.ownerOf_of_getElem? hslot⟩
      rw [Arena.parentOf_of_getElem? hnode, hparent]
    exact Nat.lt_of_le_of_lt (ih hrest) (hup.lt hwf)

/-- **The search for a repeated placement** finds those that are on the way. -/
theorem createsCycle {slot : SlotNode} (h : a.Chain i chain) (hwf : a.WellFormed)
    (hslot : a.slots[s]? = some slot) (hparent : slot.parentItem = i) (itemId : String) :
    a.createsCycle s itemId = some (decide (⟨itemId, slot.id⟩ ∈ chain)) := by
  have hi : i < a.items.length := by
    apply hwf.lt_of_ownerOf (s := s)
    rw [Arena.ownerOf_of_getElem? hslot, hparent]
  have hsteps : chain.length < a.items.length := Nat.lt_of_le_of_lt (h.length_le hwf) hi
  unfold Arena.createsCycle
  rw [hslot, Option.bind_eq_bind, Option.bind_some, hparent, h.placedAbove hsteps]

theorem later {g g' : Growth} (h : g.arena.Chain i chain) (hlater : g.Later g') :
    g'.arena.Chain i chain := by
  induction chain generalizing i with
  | nil =>
    obtain ⟨node, hnode, hparent⟩ := h
    obtain ⟨node', hnode', -, hparent'⟩ := hlater.item hnode
    exact ⟨node', hnode', hparent'.trans hparent⟩
  | cons placement chain ih =>
    obtain ⟨node, s, slot, hnode, hparent, hslot, rfl, hrest⟩ := h
    obtain ⟨node', hnode', hid, hparent'⟩ := hlater.item hnode
    obtain ⟨slot', hslot', hslotId, howner⟩ := hlater.slot hslot
    refine ⟨node', s, slot', hnode', hparent'.trans hparent, hslot', by rw [hid, hslotId], ?_⟩
    rw [howner]
    exact ih hrest

end Arena.Chain

/-! ### Growth by a part of the tree -/

theorem Arena.truncated_apply {a : Arena} {e : Edit} (h : e ≠ .cut) :
    (a.apply e).truncated = a.truncated := by
  cases e with
  | cut => exact absurd rfl h
  | _ => rfl

/-- What has been entered between two stages: the items with the given labels, some of which have
slots that stay closed.  Of the earlier entries, only some items and slots have changed. -/
structure Grown (I S : Set Nat) (g g' : Growth) (labels : List Label) (cut : Bool) : Prop where
  later : g.Later g'
  frame : Arena.Frame I S g.arena g'.arena
  recorded : ∃ calls, g'.registry = calls.foldl Declarations.call g.registry ∧
    Declarations.Alike calls (labels.flatMap Label.calls)
  truncated : g'.arena.truncated = (g.arena.truncated || cut)

namespace Grown

variable {I I' S S' : Set Nat} {g g' g'' : Growth} {labels labels' : List Label} {cut cut' : Bool}
  {e : Edit}

theorem refl (g : Growth) : Grown I S g g [] false where
  later := Growth.Later.refl g
  frame := Arena.Frame.refl g.arena
  recorded := ⟨[], rfl, Declarations.Alike.refl []⟩
  truncated := (Bool.or_false _).symm

theorem trans (h : Grown I S g g' labels cut) (h' : Grown I' S' g' g'' labels' cut')
    (hI : ∀ j < g.arena.items.length, j ∈ I' → j ∈ I)
    (hS : ∀ t < g.arena.slots.length, t ∈ S' → t ∈ S) :
    Grown I S g g'' (labels ++ labels') (cut || cut') where
  later := h.later.trans h'.later
  frame := h.frame.trans h'.frame hI hS
  recorded := by
    obtain ⟨calls, hcalls, halike⟩ := h.recorded
    obtain ⟨calls', hcalls', halike'⟩ := h'.recorded
    refine ⟨calls ++ calls', ?_, ?_⟩
    · rw [hcalls', hcalls, List.foldl_append]
    · rw [List.flatMap_append]
      exact halike.append halike'
  truncated := by rw [h'.truncated, h.truncated, Bool.or_assoc]

theorem congr (h : Grown I S g g' labels cut)
    (hcalls : labels.flatMap Label.calls = labels'.flatMap Label.calls) (hcut : cut = cut') :
    Grown I S g g' labels' cut' where
  later := h.later
  frame := h.frame
  recorded := hcalls ▸ h.recorded
  truncated := hcut ▸ h.truncated

theorem edited (he : e.Permitted g.arena) (hcut : e ≠ .cut) :
    Grown e.changedItems e.changedSlots g (g.edited e) [] false where
  later := Growth.later_edited he
  frame := g.arena.frame_apply e
  recorded := ⟨[], rfl, Declarations.Alike.refl []⟩
  truncated := by
    rw [Bool.or_false]
    exact Arena.truncated_apply hcut

/-- Some slots stay closed. -/
theorem edited_cut (hne : g.arena.items ≠ []) : Grown I S g (g.edited .cut) [] true where
  later := Growth.later_edited hne
  frame := ⟨fun _ _ _ h => h, fun _ _ _ h => h⟩
  recorded := ⟨[], rfl, Declarations.Alike.refl []⟩
  truncated := (Bool.or_true _).symm

/-- Recording a candidate and what it declares. -/
theorem registered {label : Label} {conflicts : List String}
    (hdeclared : label.declared = NameSet.ofList conflicts) :
    Grown I S g (g.registered label.id conflicts) [label] false where
  later := Growth.later_registered ..
  frame := Arena.Frame.refl g.arena
  recorded := by
    have hmem : ∀ b, b ∈ label.declared.toList ↔ b ∈ conflicts := fun b => by
      rw [hdeclared, NameSet.mem_toList, NameSet.mem_ofList]
    rcases eq_or_ne conflicts [] with rfl | hsome
    · refine ⟨[.candidate label.id], ?_, ?_, ?_⟩
      · simp [Growth.registered, Declarations.call]
      · simp [Declares, Label.calls, hmem]
      · simp [Label.calls]
    · refine ⟨[.candidate label.id, .conflicts label.id conflicts], ?_, ?_, ?_⟩
      · simp [Growth.registered, hsome, Declarations.call]
      · simp [Declares, Label.calls, hmem]
      · simp [Label.calls]
  truncated := (Bool.or_false _).symm

end Grown

/-! ### Considering an item -/

variable {p : Provider Id} {c : Constraints}

/-- What has become of the tables with the verdict about an item that fits a slot. -/
def Tried (s : Nat) (item : AllowedItem) (g : Growth) :
    Verdict Label → Option Nat → Growth → Prop
  | .unavailable, none, g' => g' = g
  | .cyclic, none, g' => g' = g.edited (.keepOut s item.id)
  | .mounted label, some child, g' => child = g.arena.items.length ∧ ∃ found,
      label = item.label found ∧
      g' = ((g.registered label.id found.conflicts).edited
        (.item (.ofLabel label (some s)))).edited (.mount s child)
  | _, _, _ => False

/-- Mounting a new item in a slot is permitted. -/
theorem permitted_mount {a : Arena} {s : Nat} (label : Label) (hwf : a.WellFormed)
    (hs : s < a.slots.length) :
    (Edit.item (.ofLabel label (some s))).Permitted a ∧
      (Edit.mount s a.items.length).Permitted (a.apply (.item (.ofLabel label (some s)))) := by
  refine ⟨⟨rfl, hs⟩, hs, ?_, ?_⟩
  · rw [Arena.parentOf_apply_item, if_pos rfl]
    rfl
  · intro hmem
    exact Nat.lt_irrefl _ (hwf.lt_of_mem_candidatesOf hmem)

open Growing in
theorem mirrors_tryAttach {g : Growth} {s i : Nat} {slot : SlotNode} {chain : List Placement}
    (hwf : g.arena.WellFormed) (hslot : g.arena.slots[s]? = some slot)
    (hparent : slot.parentItem = i) (hchain : g.arena.Chain i chain) (item : AllowedItem) :
    Mirrors (consider p c chain slot.id item) (tryAttach p c s item) g (Tried s item g) := by
  have hs := (List.getElem?_eq_some_iff.mp hslot).1
  unfold consider tryAttach
  by_cases hex : c.Excludes item.id
  · rw [if_pos hex, if_pos hex, mirrors_pure]
    exact Succeeds.pure rfl
  rw [if_neg hex, if_neg hex]
  apply (mirrors_read _ g).bind
  rintro _ offers g - ⟨rfl, rfl⟩
  by_cases hbuy : c.levels.CanPurchase offers
  swap
  · rw [if_pos hbuy, if_pos hbuy, mirrors_pure]
    exact Succeeds.pure rfl
  rw [if_neg (not_not.mpr hbuy), if_neg (not_not.mpr hbuy)]
  have hcycle := hchain.createsCycle hwf hslot hparent item.id
  apply (succeeds_answer (fun a => a.createsCycle s item.id) hcycle).then_mirrors
  rintro _ g - ⟨rfl, rfl⟩
  by_cases hmem : ⟨item.id, slot.id⟩ ∈ chain
  · rw [if_pos hmem, if_pos (decide_eq_true hmem)]
    have hpermitted : (Edit.keepOut s item.id).Permitted g.arena := hs
    apply (succeeds_edit hpermitted).then_mirrors
    rintro _ _ - rfl
    exact mirrors_pure.mpr (Succeeds.pure rfl)
  rw [if_neg hmem, if_neg (mt of_decide_eq_true hmem)]
  apply (mirrors_read _ g).bind
  rintro _ found g - ⟨rfl, rfl⟩
  apply (succeeds_register item.id found.conflicts).then_mirrors
  rintro _ _ - rfl
  apply (succeeds_answer (fun a => some a.items.length) rfl).then_mirrors
  rintro _ _ - ⟨rfl, rfl⟩
  obtain ⟨hitem, hmount⟩ := permitted_mount (a := (g.registered item.id found.conflicts).arena)
    (item.label found) hwf hs
  apply (succeeds_edit hitem).then_mirrors
  rintro _ _ - rfl
  apply (succeeds_edit hmount).then_mirrors
  rintro _ _ - rfl
  exact mirrors_pure.mpr (Succeeds.pure ⟨rfl, found, rfl, rfl⟩)

/-! ### Filling a slot -/

/-- The slot of a row, with what became of the items that fit it. -/
def SlotRecord.slot (row : SlotRecord) (ownerId : String) (address : List Nat)
    (chain : List Placement) (verdicts : List (String × Verdict Part)) : Slot :=
  .mk
    { id := row.id
      name := row.name
      ownerId := ownerId
      address := address
      chain := chain
      cyclic := (verdicts.filter fun (_, v) => v.isCyclic).map Prod.fst
      pruned := [] }
    (verdicts.filterMap fun (_, v) => v.part?)

/-- A slot and the items below it are in the tables, behind those of the item that has it. -/
def Slot.FilledAt (a : Arena) (i s : Nat) (slot : Slot) : Prop :=
  ∃ node, a.slots[s]? = some node ∧ node.Shows slot.site ∧ node.parentItem = i ∧
    List.Forall₂ (Part.Held (a.since (i + 1) (s + 1))) slot.candidates node.candidates

/-- The labels of the items below a slot. -/
def Slot.labels (slot : Slot) : List Label := slot.candidates.flatMap Part.labels

/-- Some item below a slot has slots that stay closed. -/
def Slot.truncated (slot : Slot) : Bool := slot.candidates.any Part.truncated

/-- The part of the tree at and below an item has been entered, from the item on. -/
structure Populated (i : Nat) (label : Label) (g : Growth) (part : Part) (g' : Growth) : Prop where
  held : part.Held (g'.arena.since i g.arena.slots.length) i
  calls : part.label.calls = label.calls
  grown : Grown {i} ∅ g g' part.labels.tail part.truncated

/-- An item has been entered, but none of its slots. -/
structure Entered (i : Nat) (label : Label) (chain : List Placement) (g : Growth) : Prop where
  wellFormed : g.arena.WellFormed
  item : ∃ node, g.arena.items[i]? = some node ∧ node.Shows label ∧ node.slots = []
  chain : g.arena.Chain i chain
  uncut : label.cut = false

/-- A slot has been filled by what became of some items, since the stage `g`. -/
structure Filling (i s : Nat) (g : Growth) (slot : Slot) (g' : Growth) : Prop where
  filled : slot.FilledAt g'.arena i s
  grown : Grown ∅ {s} g g' slot.labels slot.truncated

section Filling

variable {i s : Nat} {g g' g'' : Growth} {row : SlotRecord} {ownerId : String} {address : List Nat}
  {chain : List Placement} {verdicts : List (String × Verdict Part)} {item : AllowedItem}

theorem Filling.unavailable (h : Filling i s g (row.slot ownerId address chain verdicts) g') :
    Filling i s g (row.slot ownerId address chain (verdicts ++ [(item.id, .unavailable)])) g' := by
  have hsame : row.slot ownerId address chain (verdicts ++ [(item.id, .unavailable)]) =
      row.slot ownerId address chain verdicts := by
    simp [SlotRecord.slot, Verdict.isCyclic, Verdict.part?]
  rwa [hsame]

theorem Filling.cyclic (h : Filling i s g (row.slot ownerId address chain verdicts) g') :
    Filling i s g (row.slot ownerId address chain (verdicts ++ [(item.id, .cyclic)]))
      (g'.edited (.keepOut s item.id)) := by
  obtain ⟨node, hnode, hshows, hparent, hheld⟩ := h.filled
  have hcandidates :
      (row.slot ownerId address chain (verdicts ++ [(item.id, .cyclic)])).candidates =
        (row.slot ownerId address chain verdicts).candidates := by
    simp [SlotRecord.slot, Slot.candidates, Verdict.part?]
  have hgrown : Grown ∅ {s} g' (g'.edited (.keepOut s item.id)) [] false :=
    Grown.edited (e := .keepOut s item.id) (List.getElem?_eq_some_iff.mp hnode).1 (by simp)
  refine ⟨⟨{ node with cyclic := node.cyclic ++ [item.id] }, ?_, ⟨hshows.id, hshows.name, ?_,
    hshows.pruned⟩, hparent, ?_⟩, ?_⟩
  · simp [Growth.edited, Arena.apply, Arena.modifySlot, hnode]
  · rw [hshows.cyclic]
    simp [SlotRecord.slot, Slot.site, Verdict.isCyclic]
  · rw [hcandidates]
    exact hheld.imp fun c j hc => hc.frame hgrown.frame (by simp) (by simp)
  · have hall := h.grown.trans hgrown (fun _ _ h => h) fun _ _ h => h
    refine hall.congr ?_ ?_
    · simp [Slot.labels, hcandidates]
    · simp [Slot.truncated, hcandidates]

/-- The stage at which an item has been mounted in a slot. -/
def Growth.mounted (g : Growth) (s : Nat) (label : Label) (conflicts : List String) : Growth :=
  ((g.registered label.id conflicts).edited (.item (.ofLabel label (some s)))).edited
    (.mount s g.arena.items.length)

variable {label : Label} {conflicts : List String}

theorem Growth.slots_mounted (label : Label) (conflicts : List String) {node : SlotNode}
    (hnode : g.arena.slots[s]? = some node) :
    (g.mounted s label conflicts).arena.slots[s]? =
      some { node with candidates := node.candidates ++ [g.arena.items.length] } := by
  simp [Growth.mounted, Growth.edited, Growth.registered, Arena.apply, Arena.modifySlot, hnode]

theorem Growth.items_mounted (g : Growth) (s : Nat) (label : Label) (conflicts : List String) :
    (g.mounted s label conflicts).arena.items =
      g.arena.items ++ [.ofLabel label (some s)] := rfl

theorem grown_mounted (hwf : g.arena.WellFormed) (hs : s < g.arena.slots.length)
    (hdeclared : label.declared = NameSet.ofList conflicts) :
    Grown ∅ {s} g (g.mounted s label conflicts) [label] false := by
  obtain ⟨hitem, hmount⟩ := permitted_mount label hwf hs
  have hregistered : Grown ∅ {s} g (g.registered label.id conflicts) [label] false :=
    Grown.registered hdeclared
  have hentered := hregistered.trans (Grown.edited hitem (by simp)) (by simp) (by simp)
  exact (hentered.trans (Grown.edited hmount (by simp)) (by simp) (by simp)).congr rfl rfl

theorem Filling.mounted {part : Part}
    (h : Filling i s g (row.slot ownerId address chain verdicts) g') (hwf : g'.arena.WellFormed)
    (hi : i < g'.arena.items.length) (hdeclared : label.declared = NameSet.ofList conflicts)
    (hpart : Populated g'.arena.items.length label (g'.mounted s label conflicts) part g'') :
    Filling i s g (row.slot ownerId address chain (verdicts ++ [(item.id, .mounted part)]))
      g'' := by
  obtain ⟨node, hnode, hshows, hparent, hheld⟩ := h.filled
  have hs := (List.getElem?_eq_some_iff.mp hnode).1
  have hslot : row.slot ownerId address chain (verdicts ++ [(item.id, .mounted part)]) =
      .mk (row.slot ownerId address chain verdicts).site
        ((row.slot ownerId address chain verdicts).candidates ++ [part]) := by
    simp [SlotRecord.slot, Slot.site, Slot.candidates, Verdict.part?, Verdict.isCyclic]
  have hcalls : part.labels.flatMap Label.calls =
      label.calls ++ part.labels.tail.flatMap Label.calls := by
    rw [Part.labels_eq, List.flatMap_cons, List.tail_cons, hpart.calls]
  -- Populating changes the entry of the new item, which was not there before it was mounted.
  have hgrown := (grown_mounted hwf hs hdeclared).trans hpart.grown
    (fun j hj hmem => absurd hmem (Nat.ne_of_lt hj)) (by simp)
  have hmounted := Growth.slots_mounted label conflicts hnode
  have hnode' := hpart.grown.frame.slots s _ (Set.notMem_empty s) hmounted
  rw [hslot]
  refine ⟨⟨_, hnode', ⟨hshows.id, hshows.name, hshows.cyclic, hshows.pruned⟩, hparent, ?_⟩, ?_⟩
  · apply List.rel_append
    · exact hheld.imp fun c j hc => hc.frame hgrown.frame (by simp) (by simp)
    · have hlt := (List.getElem?_eq_some_iff.mp hmounted).1
      exact List.Forall₂.cons (hpart.held.since_le hi hlt) List.Forall₂.nil
  · have hall := h.grown.trans hgrown (fun _ _ h => h) fun _ _ h => h
    refine hall.congr ?_ ?_
    · simp [Slot.labels, Slot.candidates, hcalls]
    · simp [Slot.truncated, Slot.candidates]

/-- A mounted item can be populated. -/
theorem entered_mounted (label : Label) {slot : SlotNode} (hwf : g.arena.WellFormed)
    (hslot : g.arena.slots[s]? = some slot) (hparent : slot.parentItem = i)
    (hchain : g.arena.Chain i chain) (hdeclared : label.declared = NameSet.ofList conflicts)
    (huncut : label.cut = false) :
    Entered g.arena.items.length label (⟨label.id, slot.id⟩ :: chain)
      (g.mounted s label conflicts) := by
  have hlater := (grown_mounted hwf (List.getElem?_eq_some_iff.mp hslot).1 hdeclared).later
  have hitem : (g.mounted s label conflicts).arena.items[g.arena.items.length]? =
      some (.ofLabel label (some s)) := by
    rw [Growth.items_mounted, List.getElem?_concat_length]
  exact {
    wellFormed := hlater.wellFormed hwf
    item := ⟨_, hitem, ItemNode.shows_ofLabel label (some s), rfl⟩
    chain := ⟨_, s, _, hitem, rfl, Growth.slots_mounted label conflicts hslot, rfl, by
      rw [hparent]
      exact hchain.later hlater⟩
    uncut := huncut }

end Filling

/-! ### Opening the slots of an item -/

/-- Some slots of an item have been opened and filled, since the stage `g`. -/
structure Opening (i : Nat) (label : Label) (g : Growth) (slots : List Slot) (g' : Growth) :
    Prop where
  item : ∃ node, g'.arena.items[i]? = some node ∧ node.Shows label ∧
    List.Forall₂ (Slot.Held (g'.arena.since (i + 1) g.arena.slots.length)) slots node.slots
  grown : Grown {i} ∅ g g' (slots.flatMap Slot.labels) (slots.any Slot.truncated)

section Opening

variable {i : Nat} {label : Label} {g g' g'' : Growth} {slots : List Slot} {row : SlotRecord}
  {chain : List Placement}

theorem Entered.opening (h : Entered i label chain g) : Opening i label g [] g := by
  obtain ⟨node, hnode, hshows, hslots⟩ := h.item
  exact ⟨⟨node, hnode, hshows, hslots ▸ List.Forall₂.nil⟩, Grown.refl g⟩

theorem permitted_slot {a : Arena} {node : ItemNode} (hnode : a.items[i]? = some node)
    (row : SlotRecord) : (Edit.slot (.ofRecord row i)).Permitted a :=
  ⟨rfl, (List.getElem?_eq_some_iff.mp hnode).1⟩

theorem filling_slot (g : Growth) (i : Nat) (row : SlotRecord) (ownerId : String)
    (address : List Nat) (chain : List Placement) :
    Filling i g.arena.slots.length (g.edited (.slot (.ofRecord row i)))
      (row.slot ownerId address chain []) (g.edited (.slot (.ofRecord row i))) where
  filled := by
    refine ⟨.ofRecord row i, ?_, ⟨rfl, rfl, rfl, rfl⟩, rfl, List.Forall₂.nil⟩
    simp [Growth.edited, Arena.apply, Arena.modifyItem]
  grown := Grown.refl _

theorem Opening.step {slot : Slot} (h : Opening i label g slots g')
    (hslot : Filling i g'.arena.slots.length (g'.edited (.slot (.ofRecord row i))) slot g'') :
    Opening i label g (slots ++ [slot]) g'' := by
  obtain ⟨node, hnode, hshows, hheld⟩ := h.item
  obtain ⟨slotNode, hslotNode, hshowsSlot, -, hcandidates⟩ := hslot.filled
  -- Likewise, filling changes the entry of the new slot, which was not there before.
  have hentered := Grown.edited (permitted_slot hnode row) (by simp)
  have hgrown := hentered.trans hslot.grown (by simp)
    fun t ht hmem => absurd hmem (Nat.ne_of_lt ht)
  have hnode' : (g'.edited (.slot (.ofRecord row i))).arena.items[i]? =
      some { node with slots := node.slots ++ [g'.arena.slots.length] } := by
    simp [Growth.edited, Arena.apply, Arena.modifyItem, SlotNode.ofRecord, hnode]
  have hnode'' := hslot.grown.frame.items i _ (Set.notMem_empty i) hnode'
  refine ⟨⟨_, hnode'', ⟨hshows.id, hshows.name, hshows.kind, hshows.modifiers, hshows.declared⟩,
    ?_⟩, ?_⟩
  · apply List.rel_append
    · exact hheld.imp fun s t hs => hs.frame hgrown.frame (by simp [SlotNode.ofRecord]) (by simp)
    · refine List.Forall₂.cons ?_ List.Forall₂.nil
      have hlength := h.grown.later.length_slots
      refine Slot.held_iff.mpr ⟨slotNode, ⟨hlength, hslotNode⟩, hshowsSlot, ?_⟩
      exact hcandidates.imp fun c j hc => hc.since_le (Nat.le_refl _) (Nat.le_succ_of_le hlength)
  · have hall := h.grown.trans hgrown (fun _ _ h => h) (by simp)
    exact hall.congr (by simp) (by simp)

end Opening

/-! ### Populating -/

section Populate

open Growing

variable {i : Nat} {label : Label} {g : Growth} {chain : List Placement} {address : List Nat}

/-- Populating down to a depth follows the expansion. -/
def Populates (p : Provider Id) (c : Constraints) (depth : Nat) : Prop :=
  ∀ {i label chain address g}, Entered i label chain g →
    Mirrors (expand p c depth chain address label) (populate p c depth i) g
      fun part _ g' => Populated i label g part g'

/-- Considering an item for a slot, and populating it if it is mounted. -/
theorem mirrors_attach {depth s j : Nat} {row : SlotRecord} {ownerId : String} {g g' : Growth}
    (hdepth : Populates p c depth) (hwf : g'.arena.WellFormed) (hchain : g'.arena.Chain i chain)
    {verdicts : List (String × Verdict Part)}
    (hfilling : Filling i s g (row.slot ownerId address chain verdicts) g') (item : AllowedItem) :
    Mirrors
      (do
        match ← consider p c chain row.id item with
        | .mounted label =>
          let part ← expand p c depth (⟨item.id, row.id⟩ :: chain) (j :: address) label
          return (item.id, Verdict.mounted part)
        | .cyclic => return (item.id, Verdict.cyclic)
        | .unavailable => return (item.id, Verdict.unavailable))
      (do
        if let some child ← tryAttach p c s item then
          populate p c depth child) g'
      fun verdict _ g'' =>
        Filling i s g (row.slot ownerId address chain (verdicts ++ [verdict])) g'' := by
  obtain ⟨node, hnode, hshows, hparent, -⟩ := hfilling.filled
  have hid : node.id = row.id := hshows.id
  rw [← hid]
  apply (mirrors_tryAttach hwf hnode hparent hchain item).bind
  intro verdict child g'' _ htried
  cases verdict with
  | unavailable =>
    cases child with
    | some child => exact htried.elim
    | none =>
      obtain rfl : g'' = g' := htried
      exact mirrors_pure.mpr (Succeeds.pure hfilling.unavailable)
  | cyclic =>
    cases child with
    | some child => exact htried.elim
    | none =>
      obtain rfl : g'' = g'.edited (.keepOut s item.id) := htried
      exact mirrors_pure.mpr (Succeeds.pure hfilling.cyclic)
  | mounted label =>
    cases child with
    | none => exact htried.elim
    | some child =>
      obtain ⟨rfl, found, rfl, rfl⟩ := htried
      have hi : i < g'.arena.items.length := by
        apply hwf.lt_of_ownerOf (s := s)
        rw [Arena.ownerOf_of_getElem? hnode, hparent]
      have hentered := entered_mounted (item.label found) hwf hnode hparent hchain rfl rfl
      apply (hdepth hentered).then_pure
      intro part _ g'' _ hpart
      exact hfilling.mounted hwf hi rfl hpart

/-- Opening a slot, and considering the items that fit it one by one. -/
theorem mirrors_openSlot {depth n : Nat} {g' : Growth} {slots : List Slot}
    (hdepth : Populates p c depth) (h : Entered i label chain g)
    (hopening : Opening i label g slots g') (row : SlotRecord) :
    Mirrors
      (do
        let allowed ← Reading.ask label.id (p.allowed row.id)
        let verdicts ← allowed.zipIdx.mapM fun (item, j) => do
          match ← consider p c chain row.id item with
          | .mounted label =>
            let part ← expand p c depth (⟨item.id, row.id⟩ :: chain) (j :: n :: address) label
            return (item.id, Verdict.mounted part)
          | .cyclic => return (item.id, Verdict.cyclic)
          | .unavailable => return (item.id, Verdict.unavailable)
        return row.slot label.id (n :: address) chain verdicts)
      (openSlot p c (populate p c depth) i label.id row) g'
      fun slot _ g'' => Opening i label g (slots ++ [slot]) g'' := by
  obtain ⟨node, hnode, -⟩ := hopening.item
  unfold openSlot
  apply (succeeds_answer (fun a => some a.slots.length) rfl).then_mirrors
  rintro _ g' - ⟨rfl, rfl⟩
  apply (succeeds_edit (permitted_slot hnode row)).then_mirrors
  rintro _ _ hentered rfl
  apply (mirrors_read _ _).bind
  rintro _ allowed g₁ - ⟨rfl, hg₁⟩
  have hlater : g.Later g₁ := by
    rw [hg₁]
    exact hopening.grown.later.trans hentered
  have hempty := filling_slot g' i row label.id (n :: address) chain
  rw [← hg₁] at hempty
  -- The loop keeps the slot filled by the verdicts so far.
  refine Mirrors.then_pure (Mirrors.forM (fun verdicts g'' => Filling i g'.arena.slots.length g₁
    (row.slot label.id (n :: address) chain verdicts) g'') ?_ hempty 0) ?_
  · intro item j verdicts g'' hfilling
    have hlater' := hlater.trans hfilling.grown.later
    have hwf := hlater'.wellFormed h.wellFormed
    exact mirrors_attach hdepth hwf (h.chain.later hlater') hfilling item
  · intro verdicts _ g'' _ hfilling
    rw [hg₁] at hfilling
    exact hopening.step hfilling

/-- An item whose slots stay closed. -/
theorem Entered.populated {g' : Growth} {cut : Bool} (h : Entered i label chain g)
    (hgrown : Grown ∅ ∅ g g' [] cut) :
    Populated i label g (.mk { label with cut := cut } []) g' := by
  obtain ⟨node, hnode, hshows, hslots⟩ := h.item
  have hnode' := hgrown.frame.items i node (Set.notMem_empty i) hnode
  refine ⟨Part.held_iff.mpr ⟨node, ⟨Nat.le_refl i, hnode'⟩, ?_, ?_⟩, rfl, ?_⟩
  · exact ⟨hshows.id, hshows.name, hshows.kind, hshows.modifiers, hshows.declared⟩
  · rw [hslots]
    exact List.Forall₂.nil
  · have hall := (Grown.refl (I := {i}) (S := ∅) g).trans hgrown (by simp) (by simp)
    refine hall.congr ?_ ?_
    · rw [Part.labels_eq]
      rfl
    · simp [Part.truncated, Part.fold_mk]

/-- An item whose slots have been opened and filled. -/
theorem Opening.populated {g' : Growth} {slots : List Slot} (h : Opening i label g slots g')
    (huncut : label.cut = false) : Populated i label g (.mk label slots) g' := by
  obtain ⟨node, hnode, hshows, hslots⟩ := h.item
  refine ⟨Part.held_iff.mpr ⟨node, ⟨Nat.le_refl i, hnode⟩, hshows, ?_⟩, rfl, h.grown.congr ?_ ?_⟩
  · exact hslots.imp fun s t hs => hs.since_le (Nat.le_succ i) (Nat.le_refl _)
  · rw [Part.labels_eq]
    rfl
  · unfold Part.truncated
    rw [Part.fold_mk, huncut, Bool.false_or, List.any_map]
    congr 1
    funext slot
    rw [Function.comp_apply, Slot.fold_eq, List.any_map]
    rfl

/-- **Populating follows the expansion**: it fails where the expansion fails, and otherwise the
tables have grown by the expanded item. -/
theorem mirrors_populate (depth : Nat) (h : Entered i label chain g) :
    Mirrors (expand p c depth chain address label) (populate p c depth i) g
      fun part _ g' => Populated i label g part g' := by
  induction depth generalizing i label chain address g with
  | zero =>
    obtain ⟨node, hnode, hshows, hslots⟩ := h.item
    unfold expand populate
    apply (succeeds_answer (fun a => a.items[i]?) hnode).then_mirrors
    rintro _ g - ⟨rfl, rfl⟩
    rw [hshows.id]
    apply (mirrors_read _ g).bind
    rintro _ rows g - ⟨rfl, rfl⟩
    rw [mirrors_pure]
    by_cases hrows : rows.isEmpty
    · rw [if_neg (not_not.mpr hrows), hrows]
      exact Succeeds.pure (h.populated (Grown.refl g))
    · rw [if_pos hrows, Bool.eq_false_of_not_eq_true hrows]
      have hne : g.arena.items ≠ [] := List.ne_nil_of_mem (List.mem_of_getElem? hnode)
      apply (succeeds_edit (e := .cut) hne).imp
      rintro _ _ - rfl
      exact h.populated (Grown.edited_cut hne)
  | succ depth ih =>
    obtain ⟨node, hnode, hshows, hslots⟩ := h.item
    unfold expand populate
    apply (succeeds_answer (fun a => a.items[i]?) hnode).then_mirrors
    rintro _ g - ⟨rfl, rfl⟩
    rw [hshows.id]
    apply (mirrors_read _ g).bind
    rintro _ rows g - ⟨rfl, rfl⟩
    -- The loop keeps the slots opened so far filled and listed.
    refine Mirrors.then_pure (Mirrors.forM (Opening i label g) ?_ h.opening 0) ?_
    · intro row n slots g' hopening
      exact mirrors_openSlot (fun hentered => ih hentered) h hopening row
    · intro slots _ g' _ hopening
      exact hopening.populated h.uncut

end Populate

end Gunsmith
