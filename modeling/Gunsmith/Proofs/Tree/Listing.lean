/-
  What stands where in a tree.

  The listings of a tree (`Part.ids`, `Part.labels`, `Part.allSlots`) are computed from
  the leaves up.  Here each of them is read one level at a time: what is listed at an item
  is the item itself or is listed at a candidate for one of its slots (`Part.mem_ids`,
  `Part.mem_labels`, `Part.mem_allSlots`).  All further facts about listings follow from
  these by induction over the tree.

  An item is attached to a tree (`Part.Attached`) if it is a candidate for one of the
  slots of the tree.

  A list of slots is worked off by deciding its first slot, which may open further ones.
  `Slot.induct_work` is the induction that goes with it: what holds of a list as soon as it
  holds of the rest, of the slots below each candidate for the first slot, and of these two
  together, holds of every list.

  Where the slots of a tree have different addresses (`Part.DistinctAddresses`), a list of
  them is known by the addresses.
-/
import Gunsmith.Tree.Reach
import Mathlib.Algebra.Order.BigOperators.Group.List
import Mathlib.Algebra.Order.Ring.Nat
import Mathlib.Data.List.Flatten
import Mathlib.Data.List.Nodup

namespace Gunsmith

/-! ### One level of a fold -/

section Fold

variable {α β : Type} (item : Label → List β → α) (slot : Site → List α → β)

theorem Part.fold_eq (part : Part) :
    Part.fold item slot part = item part.label (part.slots.map (Slot.fold item slot)) := by
  obtain ⟨label, slots⟩ := part
  exact Part.fold_mk ..

theorem Slot.fold_eq (s : Slot) :
    Slot.fold item slot s = slot s.site (s.candidates.map (Part.fold item slot)) := by
  obtain ⟨site, candidates⟩ := s
  exact Slot.fold_mk ..

end Fold

/-- What holds of an item as soon as it holds of all candidates for its slots, holds of every
item; the item is not taken apart. -/
theorem Part.induct_slots {motive : Part → Prop}
    (step : ∀ part : Part, (∀ s ∈ part.slots, ∀ c ∈ s.candidates, motive c) → motive part) :
    ∀ part, motive part :=
  Part.induct fun label slots ih => step (.mk label slots) ih

/-! ### Induction on the slots to decide -/

theorem Part.slotCount_le_of_mem {c : Part} {cs : List Part} (h : c ∈ cs) :
    c.slotCount ≤ Part.totalCount cs :=
  le_total_of_mem (List.mem_map_of_mem h)

/-- Induction on the slots to decide: a list of slots is preceded by its tail, by the slots below
each candidate for the first slot, and by these appended to the tail. -/
theorem Slot.induct_work {motive : List Slot → Prop} (nil : motive [])
    (cons : ∀ slot rest, motive rest →
      (∀ c ∈ slot.candidates, motive c.slots ∧ motive (rest ++ c.slots)) →
      motive (slot :: rest)) :
    ∀ slots, motive slots := by
  intro slots
  induction hn : Slot.totalCount slots using Nat.strong_induction_on generalizing slots with
  | _ n ih =>
    cases slots with
    | nil => exact nil
    | cons slot rest =>
      rw [Slot.totalCount_cons, Slot.slotCount_eq] at hn
      refine cons slot rest (ih _ (by omega) rest rfl) fun c hc => ?_
      have hle := Part.slotCount_le_of_mem hc
      rw [Part.slotCount_eq] at hle
      refine ⟨ih _ (by omega) c.slots rfl, ih _ ?_ (rest ++ c.slots) rfl⟩
      rw [Slot.totalCount_append]
      omega

/-! ### Ids and labels -/

namespace Part

variable {part : Part} {id : String}

theorem mem_ids :
    id ∈ part.ids ↔ id = part.id ∨ ∃ s ∈ part.slots, ∃ c ∈ s.candidates, id ∈ c.ids := by
  unfold ids
  rw [fold_eq]
  simp only [List.mem_cons, List.mem_flatten, List.mem_reverse, List.mem_map]
  apply or_congr Iff.rfl
  constructor
  · rintro ⟨l, ⟨s, hs, rfl⟩, hid⟩
    rw [Slot.fold_eq] at hid
    simp only [List.mem_flatten, List.mem_reverse, List.mem_map] at hid
    obtain ⟨_, ⟨c, hc, rfl⟩, hid⟩ := hid
    exact ⟨s, hs, c, hc, hid⟩
  · rintro ⟨s, hs, c, hc, hid⟩
    refine ⟨_, ⟨s, hs, rfl⟩, ?_⟩
    rw [Slot.fold_eq]
    simp only [List.mem_flatten, List.mem_reverse, List.mem_map]
    exact ⟨_, ⟨c, hc, rfl⟩, hid⟩

theorem id_mem_ids (part : Part) : part.id ∈ part.ids :=
  mem_ids.mpr (Or.inl rfl)

theorem mem_ids_of_candidate {s : Slot} {c : Part} (hs : s ∈ part.slots) (hc : c ∈ s.candidates)
    (hid : id ∈ c.ids) : id ∈ part.ids :=
  mem_ids.mpr (Or.inr ⟨s, hs, c, hc, hid⟩)

theorem labels_eq (part : Part) :
    part.labels = part.label ::
      part.slots.flatMap fun s => s.candidates.flatMap fun c => c.labels := by
  unfold labels
  rw [fold_eq]
  congr 1
  rw [List.flatMap_def]
  congr 1
  refine List.map_congr_left fun s _ => ?_
  rw [Slot.fold_eq, List.flatMap_def]

theorem mem_labels {label : Label} :
    label ∈ part.labels ↔
      label = part.label ∨ ∃ s ∈ part.slots, ∃ c ∈ s.candidates, label ∈ c.labels := by
  rw [labels_eq]
  simp only [List.mem_cons, List.mem_flatMap]

end Part

/-! ### Slots -/

theorem Slot.allSlotsOf_eq (slots : List Slot) :
    Slot.allSlotsOf slots = slots.flatMap Slot.allSlots := by
  induction slots with
  | nil => rfl
  | cons s ss ih => rw [Slot.allSlotsOf, ih, List.flatMap_cons]

theorem Part.allSlotsOf_eq (parts : List Part) :
    Part.allSlotsOf parts = parts.flatMap Part.allSlots := by
  induction parts with
  | nil => rfl
  | cons c cs ih => rw [Part.allSlotsOf, ih, List.flatMap_cons]

theorem Slot.allSlots_eq (s : Slot) :
    s.allSlots = s :: s.candidates.flatMap Part.allSlots := by
  obtain ⟨site, candidates⟩ := s
  rw [Slot.allSlots, Part.allSlotsOf_eq]
  rfl

namespace Part

theorem allSlots_eq (part : Part) : part.allSlots = part.slots.flatMap Slot.allSlots := by
  obtain ⟨label, slots⟩ := part
  rw [allSlots, Slot.allSlotsOf_eq]
  rfl

variable {part : Part} {slot : Slot}

theorem mem_allSlots :
    slot ∈ part.allSlots ↔
      ∃ s ∈ part.slots, slot = s ∨ ∃ c ∈ s.candidates, slot ∈ c.allSlots := by
  rw [allSlots_eq]
  simp only [List.mem_flatMap, Slot.allSlots_eq, List.mem_cons]

theorem mem_allSlots_of_mem_slots (hs : slot ∈ part.slots) : slot ∈ part.allSlots :=
  mem_allSlots.mpr ⟨slot, hs, Or.inl rfl⟩

/-- What lies below a candidate for a slot of a tree lies in the tree. -/
theorem mem_allSlots_of_candidate {s : Slot} {c : Part} (hs : s ∈ part.allSlots)
    (hc : c ∈ s.candidates) (h : slot ∈ c.allSlots) : slot ∈ part.allSlots := by
  induction part using induct_slots with
  | step part ih =>
    obtain ⟨s', hs', rfl | ⟨c', hc', hsc⟩⟩ := mem_allSlots.mp hs
    · exact mem_allSlots.mpr ⟨s, hs', Or.inr ⟨c, hc, h⟩⟩
    · exact mem_allSlots.mpr ⟨s', hs', Or.inr ⟨c', hc', ih s' hs' c' hc' hsc⟩⟩

/-! ### Attached items -/

/-- The item is a candidate for some slot of the tree. -/
def Attached (top part : Part) : Prop :=
  ∃ s ∈ top.allSlots, part ∈ s.candidates

variable {top c : Part}

theorem attached_of_candidate {s : Slot} (hs : s ∈ part.slots) (hc : c ∈ s.candidates) :
    part.Attached c :=
  ⟨s, mem_allSlots_of_mem_slots hs, hc⟩

theorem Attached.trans (h₁ : top.Attached part) (h₂ : part.Attached c) : top.Attached c := by
  obtain ⟨s, hs, hp⟩ := h₁
  obtain ⟨t, ht, hc⟩ := h₂
  exact ⟨t, mem_allSlots_of_candidate hs hp ht, hc⟩

/-- An item is attached if it is a candidate for a slot of the top or attached to such a one. -/
theorem attached_iff :
    top.Attached c ↔ ∃ s ∈ top.slots, ∃ d ∈ s.candidates, c = d ∨ d.Attached c := by
  constructor
  · rintro ⟨t, ht, hc⟩
    obtain ⟨s, hs, rfl | ⟨d, hd, htd⟩⟩ := mem_allSlots.mp ht
    · exact ⟨t, hs, c, hc, Or.inl rfl⟩
    · exact ⟨s, hs, d, hd, Or.inr ⟨t, htd, hc⟩⟩
  · rintro ⟨s, hs, d, hd, rfl | h⟩
    · exact attached_of_candidate hs hd
    · exact (attached_of_candidate hs hd).trans h

/-- Some attached item has a property if a candidate for a slot of the top has it, or some item
attached to such a one. -/
theorem exists_attached_iff {P : Part → Prop} :
    (∃ c, top.Attached c ∧ P c) ↔
      ∃ s ∈ top.slots, ∃ d ∈ s.candidates, P d ∨ ∃ c, d.Attached c ∧ P c := by
  constructor
  · rintro ⟨c, hc, hP⟩
    obtain ⟨s, hs, d, hd, rfl | hdc⟩ := attached_iff.mp hc
    · exact ⟨s, hs, c, hd, Or.inl hP⟩
    · exact ⟨s, hs, d, hd, Or.inr ⟨c, hdc, hP⟩⟩
  · rintro ⟨s, hs, d, hd, hP | ⟨c, hdc, hP⟩⟩
    · exact ⟨d, attached_of_candidate hs hd, hP⟩
    · exact ⟨c, (attached_of_candidate hs hd).trans hdc, hP⟩

/-- The ids listed at an item are its own and those of the items attached to it. -/
theorem mem_ids_iff_attached {id : String} :
    id ∈ part.ids ↔ id = part.id ∨ ∃ c, part.Attached c ∧ id = c.id := by
  induction part using induct_slots with
  | step part ih =>
    rw [mem_ids, exists_attached_iff]
    exact or_congr Iff.rfl (exists_congr fun s => and_congr_right fun hs =>
      exists_congr fun d => and_congr_right fun hd => ih s hs d hd)

/-- The labels listed at an item are its own and those of the items attached to it. -/
theorem mem_labels_iff_attached {label : Label} :
    label ∈ part.labels ↔ label = part.label ∨ ∃ c, part.Attached c ∧ label = c.label := by
  induction part using induct_slots with
  | step part ih =>
    rw [mem_labels, exists_attached_iff]
    exact or_congr Iff.rfl (exists_congr fun s => and_congr_right fun hs =>
      exists_congr fun d => and_congr_right fun hd => ih s hs d hd)

/-- The labels listed below an item are those of the items attached to it. -/
theorem mem_labels_tail {label : Label} :
    label ∈ part.labels.tail ↔ ∃ c, part.Attached c ∧ label = c.label := by
  rw [labels_eq, List.tail_cons, exists_attached_iff]
  simp only [List.mem_flatMap, mem_labels_iff_attached]

theorem Attached.ids_subset (h : top.Attached part) : part.ids ⊆ top.ids := by
  intro id hid
  rw [mem_ids_iff_attached] at hid ⊢
  right
  rcases hid with hid | ⟨c, hc, hid⟩
  · exact ⟨part, h, hid⟩
  · exact ⟨c, h.trans hc, hid⟩

theorem Attached.id_mem_ids (h : top.Attached part) : part.id ∈ top.ids :=
  h.ids_subset part.id_mem_ids

/-! ### Conflict-free items -/

/-- A conflict-free item is one at and below which no item is in conflict with a candidate. -/
theorem conflictFree_iff {m : ConflictMap} :
    part.conflictFree m = true ↔ ∀ id ∈ part.ids, ¬ m.Live id := by
  induction part using induct_slots with
  | step part ih =>
    unfold conflictFree at ih ⊢
    rw [fold_eq]
    simp only [Bool.and_eq_true, decide_eq_true_eq, List.all_eq_true, List.mem_map,
      forall_exists_index, and_imp, forall_apply_eq_imp_iff₂]
    constructor
    · rintro ⟨hown, hbelow⟩ id hid
      rcases mem_ids.mp hid with rfl | ⟨s, hs, c, hc, hid⟩
      · exact hown
      · have hfree := hbelow s hs
        rw [Slot.fold_eq] at hfree
        simp only [List.all_eq_true, List.mem_map, forall_exists_index, and_imp,
          forall_apply_eq_imp_iff₂] at hfree
        exact (ih s hs c hc).mp (hfree c hc) id hid
    · intro h
      refine ⟨h _ part.id_mem_ids, fun s hs => ?_⟩
      rw [Slot.fold_eq]
      simp only [List.all_eq_true, List.mem_map, forall_exists_index, and_imp,
        forall_apply_eq_imp_iff₂]
      exact fun c hc => (ih s hs c hc).mpr fun id hid => h id (mem_ids_of_candidate hs hc hid)

theorem conflictFree_of_ids_subset {m : ConflictMap} {part' : Part}
    (hfree : part.conflictFree m = true) (h : part'.ids ⊆ part.ids) :
    part'.conflictFree m = true :=
  conflictFree_iff.mpr fun id hid => conflictFree_iff.mp hfree id (h hid)

end Part

/-! ### Addresses -/

/-- The addresses of the slots below an item. -/
def Part.addresses (part : Part) : List (List Nat) := part.allSlots.map fun s => s.site.address

theorem Part.addresses_eq (part : Part) :
    part.addresses =
      part.slots.flatMap fun s => s.site.address :: s.candidates.flatMap Part.addresses := by
  unfold Part.addresses
  rw [Part.allSlots_eq, List.map_flatMap]
  congr 1
  funext s
  rw [Slot.allSlots_eq, List.map_cons, List.map_flatMap]

/-- Different slots of the tree have different addresses. -/
def Part.DistinctAddresses (part : Part) : Prop := part.addresses.Nodup

theorem Part.DistinctAddresses.slots_inj {root : Part} (hd : root.DistinctAddresses) :
    ∀ {slots slots' : List Slot}, slots ⊆ root.allSlots → slots' ⊆ root.allSlots →
      slots.map (fun s => s.site.address) = slots'.map (fun s => s.site.address) →
      slots = slots' := by
  intro slots
  induction slots with
  | nil =>
    intro slots' _ _ h
    exact (List.map_eq_nil_iff.mp h.symm).symm
  | cons s ss ih =>
    intro slots' hs hs' h
    cases slots' with
    | nil => exact absurd h (List.cons_ne_nil _ _)
    | cons t ts =>
      rw [List.map_cons, List.map_cons, List.cons.injEq] at h
      have hst : s = t := List.inj_on_of_nodup_map hd (hs List.mem_cons_self)
        (hs' List.mem_cons_self) h.1
      rw [hst, ih (List.subset_of_cons_subset hs) (List.subset_of_cons_subset hs') h.2]

end Gunsmith
