/-
  Ways to fill the slots of a tree.

  A build decides about every slot that is opened: the slots of the weapon, and those of
  every item that is mounted.  `Fills slots ds` says that the decisions `ds` do this for
  the given slots: each slot is left empty or takes one of its candidates, and the slots
  of a mounted item are decided right after it.  So `ds` lists each opened slot exactly
  once (`Fills.perm_slots`, `Fills.sublist_allSlots`).

  Slots that stand side by side are filled independently of each other
  (`fills_append_iff`), and only the order of the decisions depends on the order of the
  slots (`Fills.append_comm`).

  A build is feasible (`Allowed`) if it mounts nothing that is excluded and no two items
  that are in conflict.
-/
import Gunsmith.Search.Solution
import Gunsmith.Proofs.Totals
import Gunsmith.Proofs.Tree.Listing
import Mathlib.Data.List.Perm.Basic
import Mathlib.Algebra.BigOperators.Group.List.Lemmas

namespace Gunsmith

/-! ### Decisions -/

/-- What is decided about one slot: it stays empty, or an item is mounted. -/
structure Decision where
  slot : Slot
  part : Option Part

namespace Decision

/-- The selection that records a decision. -/
def selection (d : Decision) : Selection := d.slot.select d.part

/-- The items that some decisions mount. -/
def mounted (ds : List Decision) : List Part := ds.filterMap Decision.part

/-- The ids of the items that some decisions mount. -/
def ids (ds : List Decision) : List String := (mounted ds).map Part.id

/-- The sums over the items that some decisions mount. -/
def sums (ds : List Decision) : Totals := ((mounted ds).map fun c => c.label.modifiers).sum

variable {s : Slot} {c : Part} {ds es : List Decision}

@[simp]
theorem mounted_nil : mounted [] = [] := rfl

@[simp]
theorem mounted_cons_none : mounted (⟨s, none⟩ :: ds) = mounted ds := rfl

@[simp]
theorem mounted_cons_some : mounted (⟨s, some c⟩ :: ds) = c :: mounted ds := rfl

@[simp]
theorem mounted_append : mounted (ds ++ es) = mounted ds ++ mounted es :=
  List.filterMap_append

@[simp]
theorem ids_nil : ids [] = [] := rfl

@[simp]
theorem ids_cons_none : ids (⟨s, none⟩ :: ds) = ids ds := rfl

@[simp]
theorem ids_cons_some : ids (⟨s, some c⟩ :: ds) = c.id :: ids ds := rfl

@[simp]
theorem ids_append : ids (ds ++ es) = ids ds ++ ids es := by
  simp [ids]

@[simp]
theorem sums_nil : sums [] = 0 := rfl

@[simp]
theorem sums_cons_none : sums (⟨s, none⟩ :: ds) = sums ds := rfl

@[simp]
theorem sums_cons_some : sums (⟨s, some c⟩ :: ds) = c.label.modifiers + sums ds := by
  simp [sums]

@[simp]
theorem sums_append : sums (ds ++ es) = sums ds + sums es := by
  simp [sums]

theorem mem_mounted : c ∈ mounted ds ↔ ∃ d ∈ ds, d.part = some c := List.mem_filterMap

theorem perm_mounted (h : ds.Perm es) : (mounted ds).Perm (mounted es) := h.filterMap _

theorem perm_ids (h : ds.Perm es) : (ids ds).Perm (ids es) := (perm_mounted h).map _

theorem sums_eq_of_perm (h : ds.Perm es) : sums ds = sums es :=
  ((perm_mounted h).map _).sum_eq

end Decision

open Decision

/-! ### Fillings -/

/-- The decisions fill the slots: every slot is left empty or takes one of its candidates, and then
the slots of that candidate are filled next. -/
inductive Fills : List Slot → List Decision → Prop
  | nil : Fills [] []
  | skip {s : Slot} {ss : List Slot} {ds : List Decision} (rest : Fills ss ds) :
    Fills (s :: ss) (⟨s, none⟩ :: ds)
  | mount {s : Slot} {ss : List Slot} {ds : List Decision} {c : Part} (hc : c ∈ s.candidates)
    (rest : Fills (c.slots ++ ss) ds) : Fills (s :: ss) (⟨s, some c⟩ :: ds)

variable {slots ss ts : List Slot} {s : Slot} {ds es : List Decision}

@[simp]
theorem fills_nil_iff : Fills [] ds ↔ ds = [] := by
  constructor
  · intro h
    cases h
    rfl
  · rintro rfl
    exact Fills.nil

theorem fills_cons_iff :
    Fills (s :: ss) ds ↔
      (∃ es, ds = ⟨s, none⟩ :: es ∧ Fills ss es) ∨
        ∃ c ∈ s.candidates, ∃ es, ds = ⟨s, some c⟩ :: es ∧ Fills (c.slots ++ ss) es := by
  constructor
  · intro h
    cases h with
    | skip rest => exact Or.inl ⟨_, rfl, rest⟩
    | mount hc rest => exact Or.inr ⟨_, hc, _, rfl, rest⟩
  · rintro (⟨es, rfl, h⟩ | ⟨c, hc, es, rfl, h⟩)
    · exact Fills.skip h
    · exact Fills.mount hc h

/-- Slots may stay empty. -/
theorem fills_empty (slots : List Slot) : Fills slots (slots.map fun s => ⟨s, none⟩) := by
  induction slots with
  | nil => exact Fills.nil
  | cons s ss ih => exact Fills.skip ih

theorem sums_empty (slots : List Slot) : sums (slots.map fun s => ⟨s, none⟩) = 0 := by
  induction slots with
  | nil => rfl
  | cons s ss ih =>
    rw [List.map_cons, sums_cons_none]
    exact ih

theorem Fills.append (h : Fills ss ds) (h' : Fills ts es) : Fills (ss ++ ts) (ds ++ es) := by
  induction h with
  | nil => exact h'
  | skip _ ih => exact Fills.skip ih
  | mount hc _ ih => exact Fills.mount hc (by rwa [List.append_assoc] at ih)

theorem Fills.split (h : Fills slots ds) : ∀ ss ts, slots = ss ++ ts →
    ∃ d e, ds = d ++ e ∧ Fills ss d ∧ Fills ts e := by
  induction h with
  | nil =>
    intro ss ts hst
    obtain ⟨rfl, rfl⟩ := List.append_eq_nil_iff.mp hst.symm
    exact ⟨[], [], rfl, Fills.nil, Fills.nil⟩
  | @skip s _ ds rest ih =>
    intro ss ts hst
    rcases List.append_eq_cons_iff.mp hst.symm with ⟨rfl, rfl⟩ | ⟨ss', rfl, rfl⟩
    · exact ⟨[], _, rfl, Fills.nil, Fills.skip rest⟩
    · obtain ⟨d, e, rfl, hd, he⟩ := ih ss' ts rfl
      exact ⟨⟨s, none⟩ :: d, e, rfl, Fills.skip hd, he⟩
  | @mount s _ ds c hc rest ih =>
    intro ss ts hst
    rcases List.append_eq_cons_iff.mp hst.symm with ⟨rfl, rfl⟩ | ⟨ss', rfl, rfl⟩
    · exact ⟨[], _, rfl, Fills.nil, Fills.mount hc rest⟩
    · obtain ⟨d, e, rfl, hd, he⟩ := ih (c.slots ++ ss') ts (List.append_assoc ..).symm
      exact ⟨⟨s, some c⟩ :: d, e, rfl, Fills.mount hc hd, he⟩

/-- **Slots side by side are independent**: to fill them is to fill the ones and the others. -/
theorem fills_append_iff :
    Fills (ss ++ ts) ds ↔ ∃ d e, ds = d ++ e ∧ Fills ss d ∧ Fills ts e := by
  constructor
  · intro h
    exact h.split ss ts rfl
  · rintro ⟨d, e, rfl, hd, he⟩
    exact hd.append he

/-- The order in which slots are listed matters for the order of the decisions only. -/
theorem Fills.append_comm (h : Fills (ss ++ ts) ds) : ∃ es, es.Perm ds ∧ Fills (ts ++ ss) es := by
  obtain ⟨d, e, rfl, hd, he⟩ := fills_append_iff.mp h
  exact ⟨e ++ d, List.perm_append_comm, he.append hd⟩

/-! ### What a filling decides -/

/-- The items that are mounted are candidates where they stand. -/
theorem Fills.mem_candidates (h : Fills slots ds) {d : Decision} (hd : d ∈ ds) {c : Part}
    (hc : d.part = some c) : c ∈ d.slot.candidates := by
  induction h with
  | nil => exact absurd hd List.not_mem_nil
  | skip _ ih =>
    rcases List.mem_cons.mp hd with rfl | hd
    · exact absurd hc (Option.some_ne_none c).symm
    · exact ih hd
  | mount hm _ ih =>
    rcases List.mem_cons.mp hd with rfl | hd
    · rw [← Option.some.inj hc]
      exact hm
    · exact ih hd

/-- **Exactly the opened slots are decided**: those given, and those of every item mounted. -/
theorem Fills.perm_slots (h : Fills slots ds) :
    (ds.map Decision.slot).Perm (slots ++ (mounted ds).flatMap Part.slots) := by
  induction h with
  | nil => exact List.Perm.nil
  | skip _ ih => exact ih.cons _
  | @mount s ss ds c _ _ ih =>
    simp only [List.map_cons, mounted_cons_some, List.flatMap_cons, List.cons_append]
    refine List.Perm.cons s (ih.trans ?_)
    rw [← List.append_assoc]
    exact List.perm_append_comm.append_right _

/-- The decided slots are slots of the trees, in the order of a listing of these. -/
theorem Fills.sublist_allSlots (h : Fills slots ds) :
    (ds.map Decision.slot).Sublist (slots.flatMap Slot.allSlots) := by
  induction h with
  | nil => exact List.Sublist.slnil
  | @skip s ss ds _ ih =>
    rw [List.map_cons, List.flatMap_cons, Slot.allSlots_eq]
    exact (ih.trans (List.sublist_append_right _ _)).cons_cons s
  | @mount s ss ds c hc _ ih =>
    rw [List.map_cons, List.flatMap_cons, Slot.allSlots_eq]
    refine List.Sublist.cons_cons s (ih.trans ?_)
    rw [List.flatMap_append, ← Part.allSlots_eq]
    have hbelow : c.allSlots.Sublist (s.candidates.flatMap Part.allSlots) :=
      List.sublist_flatten_of_mem (List.mem_map_of_mem hc)
    exact hbelow.append (List.Sublist.refl _)

/-- What is mounted below an item is attached to it. -/
theorem Fills.attached {part x : Part} (h : Fills part.slots ds) (hx : x ∈ mounted ds) :
    part.Attached x := by
  obtain ⟨d, hd, hdx⟩ := mem_mounted.mp hx
  have hslot := h.sublist_allSlots.subset (List.mem_map_of_mem hd)
  rw [← Part.allSlots_eq] at hslot
  exact ⟨d.slot, hslot, h.mem_candidates hd hdx⟩

/-- The items that are mounted stand at or below candidates for the slots. -/
theorem Fills.mem_ids_of_mounted (h : Fills slots ds) {id : String} (hid : id ∈ ids ds) :
    ∃ s ∈ slots, ∃ c ∈ s.candidates, id ∈ c.ids := by
  induction h with
  | nil => exact absurd hid List.not_mem_nil
  | skip _ ih =>
    obtain ⟨s, hs, h⟩ := ih hid
    exact ⟨s, List.mem_cons_of_mem _ hs, h⟩
  | @mount s ss ds c hc _ ih =>
    rcases List.mem_cons.mp hid with rfl | hid
    · exact ⟨s, List.mem_cons_self, c, hc, c.id_mem_ids⟩
    · obtain ⟨t, ht, d, hd, hid⟩ := ih hid
      rcases List.mem_append.mp ht with ht | ht
      · exact ⟨s, List.mem_cons_self, c, hc, Part.mem_ids_of_candidate ht hd hid⟩
      · exact ⟨t, List.mem_cons_of_mem _ ht, d, hd, hid⟩

theorem Fills.ids_subset {part : Part} (h : Fills part.slots ds) : ids ds ⊆ part.ids := by
  intro id hid
  obtain ⟨s, hs, c, hc, h⟩ := h.mem_ids_of_mounted hid
  exact Part.mem_ids_of_candidate hs hc h

end Gunsmith
