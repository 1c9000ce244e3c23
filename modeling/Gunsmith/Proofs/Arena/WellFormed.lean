/-
  The tables of a tree agree with each other.

  Who belongs to whom is written down twice in the tables, and edits touch one place at a time.
  What the two sides have to do with each other is said by `Arena.WellFormed`, a property of four
  links: the slots that an item lists, the item that a slot names, the candidates that a slot
  lists, and the slot that an item names.  The property is local, so it does not mention the tree.

  An edit keeps it if it is permitted where it is made (`Edit.Permitted`): numbers are in range,
  what is entered names its place and lists nothing, and no candidate is added twice.  There is
  one case for each kind of edit (`Arena.WellFormed.apply`), and what single edits keep is kept
  by all edits of a journal (`Arena.WellFormed.applyAll`).
-/
import Gunsmith.Tree.Arena
import Mathlib.Data.List.Nodup
import Mathlib.Data.List.Perm.Subperm
import Mathlib.Tactic.SplitIfs

namespace Gunsmith

namespace Arena

/-! ### Links -/

/-- The slots that an item lists. -/
def slotsOf (a : Arena) (i : Nat) : List Nat := (a.items[i]?.map ItemNode.slots).getD []

/-- The slot in which an item stands. -/
def parentOf (a : Arena) (i : Nat) : Option Nat := a.items[i]?.bind ItemNode.parentSlot

/-- The candidates that a slot lists. -/
def candidatesOf (a : Arena) (s : Nat) : List Nat := (a.slots[s]?.map SlotNode.candidates).getD []

/-- The item that has a slot. -/
def ownerOf (a : Arena) (s : Nat) : Option Nat := a.slots[s]?.map SlotNode.parentItem

variable {a : Arena} {i j s t p : Nat}

theorem slotsOf_of_getElem? {node : ItemNode} (h : a.items[i]? = some node) :
    a.slotsOf i = node.slots := by
  simp [slotsOf, h]

theorem parentOf_of_getElem? {node : ItemNode} (h : a.items[i]? = some node) :
    a.parentOf i = node.parentSlot := by
  simp [parentOf, h]

theorem candidatesOf_of_getElem? {slot : SlotNode} (h : a.slots[s]? = some slot) :
    a.candidatesOf s = slot.candidates := by
  simp [candidatesOf, h]

theorem ownerOf_of_getElem? {slot : SlotNode} (h : a.slots[s]? = some slot) :
    a.ownerOf s = some slot.parentItem := by
  simp [ownerOf, h]

theorem ownerOf_eq_some : a.ownerOf s = some p ↔
    ∃ slot, a.slots[s]? = some slot ∧ slot.parentItem = p :=
  Option.map_eq_some_iff

theorem parentOf_eq_some : a.parentOf i = some s ↔
    ∃ node, a.items[i]? = some node ∧ node.parentSlot = some s :=
  Option.bind_eq_some_iff

theorem lt_of_mem_slotsOf (h : s ∈ a.slotsOf i) : i < a.items.length := by
  by_contra hge
  rw [slotsOf, List.getElem?_eq_none (Nat.le_of_not_lt hge)] at h
  exact List.not_mem_nil h

theorem lt_of_parentOf (h : a.parentOf i = some s) : i < a.items.length := by
  obtain ⟨node, hnode, -⟩ := parentOf_eq_some.mp h
  exact (List.getElem?_eq_some_iff.mp hnode).1

theorem lt_of_ownerOf (h : a.ownerOf s = some p) : s < a.slots.length := by
  obtain ⟨slot, hslot, -⟩ := ownerOf_eq_some.mp h
  exact (List.getElem?_eq_some_iff.mp hslot).1

theorem lt_of_mem_candidatesOf (h : i ∈ a.candidatesOf s) : s < a.slots.length := by
  by_contra hge
  rw [candidatesOf, List.getElem?_eq_none (Nat.le_of_not_lt hge)] at h
  exact List.not_mem_nil h

/-! ### The four links after an edit -/

section Field

variable {α β : Type} {xs : List α} {f : α → α}

/-- A field reads as before, if the entry is changed in other fields. -/
theorem bind_getElem?_modify {field : α → Option β} (hf : ∀ x, field (f x) = field x) (i j : Nat) :
    (xs.modify i f)[j]?.bind field = xs[j]?.bind field := by
  rw [List.getElem?_modify]
  by_cases hij : i = j
  · cases hentry : xs[j]? <;> simp [hij, hf]
  · simp [hij]

theorem map_getElem?_modify {field : α → β} (hf : ∀ x, field (f x) = field x) (i j : Nat) :
    (xs.modify i f)[j]?.map field = xs[j]?.map field := by
  have hsome : ∀ x, some (field (f x)) = some (field x) := fun x => congrArg some (hf x)
  simpa only [Option.map_eq_bind] using bind_getElem?_modify hsome i j

end Field

section Modify

variable {f : ItemNode → ItemNode} {g : SlotNode → SlotNode}

@[simp]
theorem ownerOf_modifyItem : (a.modifyItem i f).ownerOf s = a.ownerOf s := rfl

@[simp]
theorem candidatesOf_modifyItem : (a.modifyItem i f).candidatesOf s = a.candidatesOf s := rfl

@[simp]
theorem slotsOf_modifySlot : (a.modifySlot s g).slotsOf i = a.slotsOf i := rfl

@[simp]
theorem length_items_modifyItem : (a.modifyItem i f).items.length = a.items.length :=
  List.length_modify ..

theorem parentOf_modifyItem (hf : ∀ node, (f node).parentSlot = node.parentSlot) :
    (a.modifyItem i f).parentOf j = a.parentOf j :=
  bind_getElem?_modify hf i j

theorem slotsOf_modifyItem_of_keeps (hf : ∀ node, (f node).slots = node.slots) :
    (a.modifyItem i f).slotsOf j = a.slotsOf j := by
  unfold slotsOf modifyItem
  rw [map_getElem?_modify hf]

theorem ownerOf_modifySlot (hg : ∀ slot, (g slot).parentItem = slot.parentItem) :
    (a.modifySlot s g).ownerOf t = a.ownerOf t :=
  map_getElem?_modify hg s t

theorem candidatesOf_modifySlot (hs : s < a.slots.length) :
    (a.modifySlot s g).candidatesOf t =
      if t = s then (g a.slots[s]).candidates else a.candidatesOf t := by
  unfold candidatesOf modifySlot
  rw [List.getElem?_modify]
  split_ifs with hts hst hst
  · simp [hst, List.getElem?_eq_getElem hs]
  · exact absurd hts.symm hst
  · exact absurd hst.symm hts
  · simp

theorem candidatesOf_modifySlot_of_keeps (hg : ∀ slot, (g slot).candidates = slot.candidates) :
    (a.modifySlot s g).candidatesOf t = a.candidatesOf t := by
  unfold candidatesOf modifySlot
  rw [map_getElem?_modify hg]

end Modify

section Enter

variable {α : Type} {xs : List α} {x : α} {node : ItemNode} {slot : SlotNode}

theorem getElem?_append_one : (xs ++ [x])[i]? = if i = xs.length then some x else xs[i]? := by
  split_ifs with hi
  · rw [hi, List.getElem?_concat_length]
  · rcases Nat.lt_or_gt_of_ne hi with hlt | hgt
    · rw [List.getElem?_append_left hlt]
    · have hnone : (xs ++ [x])[i]? = none := by
        rw [List.getElem?_eq_none_iff, List.length_append, List.length_singleton]
        exact hgt
      rw [hnone, List.getElem?_eq_none (Nat.le_of_lt hgt)]

theorem nodup_append_one (h : xs.Nodup) (hx : x ∉ xs) : (xs ++ [x]).Nodup := by
  rw [← List.concat_eq_append, List.nodup_concat]
  exact ⟨hx, h⟩

theorem slotsOf_apply_item (hempty : node.slots = []) :
    (a.apply (.item node)).slotsOf i = a.slotsOf i := by
  unfold slotsOf apply
  rw [getElem?_append_one]
  split_ifs with hi
  · simp [hi, hempty]
  · rfl

theorem parentOf_apply_item :
    (a.apply (.item node)).parentOf i =
      if i = a.items.length then node.parentSlot else a.parentOf i := by
  unfold parentOf apply
  rw [getElem?_append_one]
  split_ifs <;> rfl

theorem ownerOf_apply_slot :
    (a.apply (.slot slot)).ownerOf s =
      if s = a.slots.length then some slot.parentItem else a.ownerOf s := by
  unfold apply
  rw [ownerOf_modifyItem]
  unfold ownerOf
  rw [getElem?_append_one]
  split_ifs <;> rfl

theorem candidatesOf_apply_slot (hempty : slot.candidates = []) :
    (a.apply (.slot slot)).candidatesOf s = a.candidatesOf s := by
  unfold apply
  rw [candidatesOf_modifyItem]
  unfold candidatesOf
  rw [getElem?_append_one]
  split_ifs with hs
  · simp [hs, hempty]
  · rfl

theorem slotsOf_apply_slot (hparent : slot.parentItem < a.items.length) :
    (a.apply (.slot slot)).slotsOf i =
      if i = slot.parentItem then a.slotsOf i ++ [a.slots.length] else a.slotsOf i := by
  unfold slotsOf apply modifyItem
  rw [List.getElem?_modify]
  split_ifs with hi hi' hi'
  · subst hi
    simp [List.getElem?_eq_getElem hparent]
  · exact absurd hi.symm hi'
  · exact absurd hi'.symm hi
  · simp

theorem parentOf_apply_slot : (a.apply (.slot slot)).parentOf i = a.parentOf i :=
  parentOf_modifyItem fun _ => rfl

end Enter

end Arena

/-! ### Agreement -/

/-- The two tables agree with each other, and every item stands in a slot of an earlier one. -/
structure Arena.WellFormed (a : Arena) : Prop where
  /-- A slot is listed by the item that it names, and by no other. -/
  owned : ∀ i s, s ∈ a.slotsOf i ↔ a.ownerOf s = some i
  slots_nodup : ∀ i, (a.slotsOf i).Nodup
  /-- A candidate names the slot that lists it. -/
  placed : ∀ s, ∀ i ∈ a.candidatesOf s, a.parentOf i = some s
  candidates_nodup : ∀ s, (a.candidatesOf s).Nodup
  /-- The weapon stands in no slot. -/
  top : a.parentOf 0 = none
  /-- Any other item stands in a slot of an earlier one. -/
  above : ∀ i, i ≠ 0 → i < a.items.length →
    ∃ s p, a.parentOf i = some s ∧ a.ownerOf s = some p ∧ p < i

/-- The edit is in order, as the tables are. -/
def Edit.Permitted (a : Arena) : Edit → Prop
  | .item node => node.slots = [] ∧
      match node.parentSlot with
      | none => a.items = []
      | some s => s < a.slots.length
  | .slot node => node.candidates = [] ∧ node.parentItem < a.items.length
  | .mount s i => s < a.slots.length ∧ a.parentOf i = some s ∧ i ∉ a.candidatesOf s
  | .keepOut s _ => s < a.slots.length
  | .cut => a.items ≠ []
  | .rateItem i _ _ => i < a.items.length
  | .rateSlot s _ => s < a.slots.length
  | .select s candidates _ => s < a.slots.length ∧ candidates.Subperm (a.candidatesOf s)

namespace Arena

variable {a b : Arena} {i j s t p : Nat} {e : Edit}

/-- Tables with the same links are in order alike. -/
theorem WellFormed.congr (h : a.WellFormed) (hlength : b.items.length = a.items.length)
    (hslots : ∀ i, b.slotsOf i = a.slotsOf i) (hparent : ∀ i, b.parentOf i = a.parentOf i)
    (hcandidates : ∀ s, b.candidatesOf s = a.candidatesOf s)
    (howner : ∀ s, b.ownerOf s = a.ownerOf s) : b.WellFormed where
  owned i s := by rw [hslots, howner, h.owned]
  slots_nodup i := by rw [hslots]; exact h.slots_nodup i
  placed s i hi := by
    rw [hcandidates] at hi
    rw [hparent, h.placed s i hi]
  candidates_nodup s := by rw [hcandidates]; exact h.candidates_nodup s
  top := by rw [hparent, h.top]
  above i hi hlt := by
    obtain ⟨s, p, hs, hp, hlt'⟩ := h.above i hi (hlength ▸ hlt)
    exact ⟨s, p, by rw [hparent, hs], by rw [howner, hp], hlt'⟩

namespace WellFormed

variable (h : a.WellFormed)

include h

theorem lt_of_ownerOf (hs : a.ownerOf s = some p) : p < a.items.length :=
  lt_of_mem_slotsOf ((h.owned p s).mpr hs)

theorem lt_of_mem_candidatesOf (hi : i ∈ a.candidatesOf s) : i < a.items.length :=
  lt_of_parentOf (h.placed s i hi)

/-- Entering an item. -/
theorem apply_item {node : ItemNode} (hnode : (Edit.item node).Permitted a) :
    (a.apply (.item node)).WellFormed := by
  obtain ⟨hempty, hplace⟩ := hnode
  have hlength : (a.apply (.item node)).items.length = a.items.length + 1 :=
    List.length_append
  have hkept : ∀ i, i < a.items.length → (a.apply (.item node)).parentOf i = a.parentOf i := by
    intro i hi
    rw [parentOf_apply_item, if_neg (Nat.ne_of_lt hi)]
  -- The slot in which the new item stands belongs to an item that is there already.
  have howner : ∀ s, s < a.slots.length → ∃ p, a.ownerOf s = some p ∧ p < a.items.length := by
    intro s hs
    have hp := ownerOf_of_getElem? (List.getElem?_eq_getElem hs)
    exact ⟨_, hp, h.lt_of_ownerOf hp⟩
  exact {
    owned := fun i s => by
      rw [slotsOf_apply_item hempty]
      exact h.owned i s
    slots_nodup := fun i => by
      rw [slotsOf_apply_item hempty]
      exact h.slots_nodup i
    placed := fun s i hi => by
      rw [hkept i (h.lt_of_mem_candidatesOf hi)]
      exact h.placed s i hi
    candidates_nodup := h.candidates_nodup
    top := by
      rw [parentOf_apply_item]
      split_ifs with hfirst
      · -- The tables are empty, so there is no slot for the item to stand in.
        cases hslot : node.parentSlot with
        | none => rfl
        | some s =>
          rw [hslot] at hplace
          obtain ⟨p, -, hlt⟩ := howner s hplace
          omega
      · exact h.top
    above := fun i hi hlt => by
      by_cases hnew : i = a.items.length
      · cases hslot : node.parentSlot with
        | none =>
          rw [hslot] at hplace
          have hnil : a.items.length = 0 := List.length_eq_zero_iff.mpr hplace
          omega
        | some s =>
          rw [hslot] at hplace
          obtain ⟨p, hp, hlt'⟩ := howner s hplace
          refine ⟨s, p, ?_, hp, by omega⟩
          rw [parentOf_apply_item, if_pos hnew, hslot]
      · obtain ⟨s, p, hs, hp, hlt'⟩ := h.above i hi (by omega)
        exact ⟨s, p, by rw [hkept i (by omega), hs], hp, hlt'⟩ }

/-- Entering a slot. -/
theorem apply_slot {slot : SlotNode} (hslot : (Edit.slot slot).Permitted a) :
    (a.apply (.slot slot)).WellFormed := by
  obtain ⟨hempty, hparent⟩ := hslot
  -- Nothing lists the number that the slot is given, so it is listed once afterwards.
  have hfresh : ∀ i, a.slots.length ∉ a.slotsOf i := by
    intro i hmem
    have hlt := Arena.lt_of_ownerOf ((h.owned i _).mp hmem)
    omega
  have hlength : (a.apply (.slot slot)).items.length = a.items.length := by simp [apply]
  exact {
    owned := fun i s => by
      rw [slotsOf_apply_slot hparent, ownerOf_apply_slot]
      split_ifs with hi hs hs
      · simp [hi, hs]
      · simp [h.owned, hs]
      · simp [hs, hfresh, eq_comm, hi]
      · exact h.owned i s
    slots_nodup := fun i => by
      rw [slotsOf_apply_slot hparent]
      split_ifs
      · exact nodup_append_one (h.slots_nodup i) (hfresh i)
      · exact h.slots_nodup i
    placed := fun s i hi => by
      rw [candidatesOf_apply_slot hempty] at hi
      rw [parentOf_apply_slot, h.placed s i hi]
    candidates_nodup := fun s => by
      rw [candidatesOf_apply_slot hempty]
      exact h.candidates_nodup s
    top := by rw [parentOf_apply_slot, h.top]
    above := fun i hi hlt => by
      obtain ⟨s, p, hs, hp, hlt'⟩ := h.above i hi (hlength ▸ hlt)
      refine ⟨s, p, by rw [parentOf_apply_slot, hs], ?_, hlt'⟩
      rw [ownerOf_apply_slot, if_neg (Nat.ne_of_lt (Arena.lt_of_ownerOf hp)), hp] }

/-- Changing the candidates for a slot to others that name it, once each. -/
theorem modifySlot {g : SlotNode → SlotNode} (hs : s < a.slots.length)
    (hg : ∀ slot, (g slot).parentItem = slot.parentItem)
    (hplaced : ∀ i ∈ (g a.slots[s]).candidates, a.parentOf i = some s)
    (hnodup : (g a.slots[s]).candidates.Nodup) : (a.modifySlot s g).WellFormed where
  owned i t := by
    rw [ownerOf_modifySlot hg, slotsOf_modifySlot]
    exact h.owned i t
  slots_nodup i := by
    rw [slotsOf_modifySlot]
    exact h.slots_nodup i
  placed t i hi := by
    rw [candidatesOf_modifySlot hs] at hi
    split_ifs at hi with hts
    · subst hts
      exact hplaced i hi
    · exact h.placed t i hi
  candidates_nodup t := by
    rw [candidatesOf_modifySlot hs]
    split_ifs
    · exact hnodup
    · exact h.candidates_nodup t
  top := h.top
  above i hi hlt := by
    obtain ⟨t, p, ht, hp, hlt'⟩ := h.above i hi hlt
    exact ⟨t, p, ht, by rw [ownerOf_modifySlot hg, hp], hlt'⟩

/-- **A permitted edit keeps the tables in order.** -/
theorem apply (he : e.Permitted a) : (a.apply e).WellFormed := by
  cases e with
  | item node => exact h.apply_item he
  | slot slot => exact h.apply_slot he
  | mount s i =>
    obtain ⟨hs, hi, hnew⟩ := he
    have hlisted : a.candidatesOf s = a.slots[s].candidates :=
      candidatesOf_of_getElem? (List.getElem?_eq_getElem hs)
    rw [hlisted] at hnew
    refine h.modifySlot (g := fun slot => { slot with candidates := slot.candidates ++ [i] }) hs
      (fun _ => rfl) ?_ ?_
    · intro j hj
      rcases List.mem_append.mp hj with hj | hj
      · exact h.placed s j (hlisted ▸ hj)
      · rw [List.mem_singleton.mp hj, hi]
    · have hnodup := h.candidates_nodup s
      rw [hlisted] at hnodup
      exact nodup_append_one hnodup hnew
  | keepOut s id =>
    exact h.congr rfl (fun _ => rfl) (fun _ => rfl)
      (fun _ => candidatesOf_modifySlot_of_keeps fun _ => rfl)
      (fun _ => ownerOf_modifySlot fun _ => rfl)
  | cut => exact h.congr rfl (fun _ => rfl) (fun _ => rfl) (fun _ => rfl) (fun _ => rfl)
  | rateItem i bounds conflictFree =>
    exact h.congr length_items_modifyItem (fun _ => slotsOf_modifyItem_of_keeps fun _ => rfl)
      (fun _ => parentOf_modifyItem fun _ => rfl) (fun _ => rfl) (fun _ => rfl)
  | rateSlot s bounds =>
    exact h.congr rfl (fun _ => rfl) (fun _ => rfl)
      (fun _ => candidatesOf_modifySlot_of_keeps fun _ => rfl)
      (fun _ => ownerOf_modifySlot fun _ => rfl)
  | select s candidates dropped =>
    obtain ⟨hs, hsub⟩ := he
    refine h.modifySlot (g := fun slot =>
      { slot with candidates := candidates, pruned := slot.pruned ++ dropped }) hs
      (fun _ => rfl) ?_ ?_
    · exact fun i hi => h.placed s i (hsub.subset hi)
    · obtain ⟨kept, hperm, hsublist⟩ := hsub
      exact hperm.nodup_iff.mp ((h.candidates_nodup s).sublist hsublist)

end WellFormed

/-! ### Journals -/

/-- The tables after some edits. -/
def applyAll (a : Arena) (edits : List Edit) : Arena := edits.foldl Arena.apply a

/-- Each of some edits is permitted where it is made. -/
def Permits (a : Arena) : List Edit → Prop
  | [] => True
  | e :: edits => e.Permitted a ∧ (a.apply e).Permits edits

theorem applyAll_append (a : Arena) (edits later : List Edit) :
    a.applyAll (edits ++ later) = (a.applyAll edits).applyAll later :=
  List.foldl_append

theorem permits_append {edits later : List Edit} :
    a.Permits (edits ++ later) ↔ a.Permits edits ∧ (a.applyAll edits).Permits later := by
  induction edits generalizing a with
  | nil => simp [Permits, applyAll]
  | cons e edits ih =>
    rw [List.cons_append, Permits, Permits, ih, and_assoc]
    rfl

/-- **Permitted edits keep the tables in order**, however many are made. -/
theorem WellFormed.applyAll (h : a.WellFormed) {edits : List Edit} (hedits : a.Permits edits) :
    (a.applyAll edits).WellFormed := by
  induction edits generalizing a with
  | nil => exact h
  | cons e edits ih => exact ih (h.apply hedits.1) hedits.2

theorem wellFormed_empty : empty.WellFormed where
  owned i s := by simp [slotsOf, ownerOf, empty]
  slots_nodup i := by simp [slotsOf, empty]
  placed s i hi := by simp [candidatesOf, empty] at hi
  candidates_nodup s := by simp [candidatesOf, empty]
  top := rfl
  above i _ hlt := by simp [empty] at hlt

end Arena

end Gunsmith
