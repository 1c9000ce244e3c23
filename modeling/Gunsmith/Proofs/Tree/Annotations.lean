/-
  What is computed of the items and slots of a tree is exact.

  The bounds of an item are the range of the sums over all ways to fill the slots below it, and
  the bounds of a slot the range over leaving it empty or filling it: the four ends are the
  smallest and the largest values that occur (`Bounds.Exact`).  An item is conflict-free if
  nothing at or below it is in conflict with a candidate, dropped ones included
  (`Part.conflictFree_conflicts_iff`).

  Putting candidates into another order does not touch what can be filled, and exact bounds are
  determined by it (`Bounds.Exact.unique`), so ratings survive it (`Trimming.rating`).
-/
import Gunsmith.Proofs.Tree.CutAlike
import Gunsmith.Proofs.Tree.Legal
import Gunsmith.Proofs.Tree.Range
import Mathlib.Order.Bounds.Basic

namespace Gunsmith

open Decision

/-! ### Exact ranges -/

/-- The four ends of the range are the smallest and the largest values among some totals. -/
structure Bounds.Exact (b : Bounds) (ts : Set Totals) : Prop where
  least : ∀ stat, IsLeast ((fun t : Totals => t.pick stat) '' ts) (b.low.pick stat)
  greatest : ∀ stat, IsGreatest ((fun t : Totals => t.pick stat) '' ts) (b.high.pick stat)

namespace Bounds

variable {a b : Bounds} {ts : Set Totals}

/-- A range is exact if no value lies beyond its ends and each of its ends is a value. -/
theorem exact_of_extreme
    (hbound : ∀ dir stat : Stat, ∀ t ∈ ts, ¬ dir.Better (t.pick stat) (b.extreme dir stat))
    (hreach : ∀ dir stat : Stat, ∃ t ∈ ts, t.pick stat = b.extreme dir stat) : b.Exact ts where
  least stat := by
    refine ⟨hreach .recoil stat, ?_⟩
    rintro _ ⟨t, ht, rfl⟩
    exact Int.not_lt.mp (hbound .recoil stat t ht)
  greatest stat := by
    refine ⟨hreach .ergonomics stat, ?_⟩
    rintro _ ⟨t, ht, rfl⟩
    exact Int.not_lt.mp (hbound .ergonomics stat t ht)

/-- Some totals have one exact range only. -/
theorem Exact.unique (ha : a.Exact ts) (hb : b.Exact ts) : a = b := by
  have hlow : a.low = b.low := Totals.ext_values ((ha.least .recoil).unique (hb.least .recoil))
    ((ha.least .ergonomics).unique (hb.least .ergonomics))
  have hhigh : a.high = b.high :=
    Totals.ext_values ((ha.greatest .recoil).unique (hb.greatest .recoil))
      ((ha.greatest .ergonomics).unique (hb.greatest .ergonomics))
  obtain ⟨_, _⟩ := a
  obtain ⟨_, _⟩ := b
  rw [Bounds.mk.injEq]
  exact ⟨hlow, hhigh⟩

end Bounds

/-- The totals of all ways to leave a slot empty or to fill it, conflicts left aside. -/
def Slot.fillable (s : Slot) : Set Totals :=
  {t | ∃ ds, Fills [s] ds ∧ sums ds = t}

theorem Slot.extremes_singleton (dir stat : Stat) (s : Slot) :
    Slot.extremes dir stat [s] = s.bounds.extreme dir stat :=
  Int.add_zero _

/-- **The bounds of an item are exact.** -/
theorem Part.bounds_exact (part : Part) : part.bounds.Exact part.fillable := by
  refine Bounds.exact_of_extreme (fun dir stat t ht => ?_) fun dir stat => ?_
  · obtain ⟨ds, hds, rfl⟩ := ht
    exact Part.not_better_extreme dir stat hds
  · obtain ⟨ds, hds, hpick⟩ := part.exists_extreme dir stat
    exact ⟨part.totals ds, ⟨ds, hds, rfl⟩, hpick⟩

/-- **The bounds of a slot are exact.** -/
theorem Slot.bounds_exact (s : Slot) : s.bounds.Exact s.fillable := by
  refine Bounds.exact_of_extreme (fun dir stat t ht => ?_) fun dir stat => ?_
  · obtain ⟨ds, hds, rfl⟩ := ht
    rw [← Slot.extremes_singleton]
    exact Fills.not_better_extremes [s] hds
  · obtain ⟨ds, hds, hpick⟩ := exists_fills_extremes dir stat [s]
    rw [Slot.extremes_singleton] at hpick
    exact ⟨sums ds, ⟨ds, hds, rfl⟩, hpick⟩

/-! ### Trimmings that drop nothing -/

namespace Trimming

variable {f : Part → Part} {g : Slot → Slot} (h : Trimming f g)
  (hall : ∀ s, ∀ c ∈ s.candidates, f c ∈ (g s).candidates)

include h hall

theorem exists_fills_iff {slots : List Slot} {t : Totals} :
    (∃ ds, Fills (slots.map g) ds ∧ sums ds = t) ↔ ∃ ds, Fills slots ds ∧ sums ds = t := by
  constructor
  · rintro ⟨ds, hds, rfl⟩
    obtain ⟨es, hes, rfl⟩ := h.fills hds
    exact ⟨es, hes, (h.sums_mapped es).symm⟩
  · rintro ⟨ds, hds, rfl⟩
    exact ⟨_, h.fills_mapped hall hds, h.sums_mapped ds⟩

/-- What a slot can be filled to does not change if nothing is dropped. -/
theorem slot_fillable (s : Slot) : (g s).fillable = s.fillable := by
  ext t
  show (∃ ds, Fills ([s].map g) ds ∧ sums ds = t) ↔ ∃ ds, Fills [s] ds ∧ sums ds = t
  exact h.exists_fills_iff hall

/-- What an item can be filled to does not change if nothing is dropped. -/
theorem part_fillable (part : Part) : (f part).fillable = part.fillable := by
  ext t
  have hsums : ∀ {slots : List Slot}, (∃ ds, Fills slots ds ∧ part.label.modifiers + sums ds = t) ↔
      ∃ u, part.label.modifiers + u = t ∧ ∃ ds, Fills slots ds ∧ sums ds = u := by
    intro slots
    constructor
    · rintro ⟨ds, hds, hsum⟩
      exact ⟨sums ds, hsum, ds, hds, rfl⟩
    · rintro ⟨_, hsum, ds, hds, rfl⟩
      exact ⟨ds, hds, hsum⟩
  show (∃ ds, Fills (f part).slots ds ∧ (f part).label.modifiers + sums ds = t) ↔
    ∃ ds, Fills part.slots ds ∧ part.label.modifiers + sums ds = t
  rw [h.label, h.slots, hsums, hsums]
  exact exists_congr fun u => and_congr_right fun _ => h.exists_fills_iff hall

theorem mem_ids (part : Part) {id : String} : id ∈ (f part).ids ↔ id ∈ part.ids := by
  refine ⟨fun hid => h.ids_subset part hid, ?_⟩
  induction part using Part.induct_slots with
  | step part ih =>
    intro hid
    rcases Part.mem_ids.mp hid with rfl | ⟨s, hs, c, hc, hid⟩
    · rw [← h.id]
      exact Part.id_mem_ids _
    · refine Part.mem_ids_of_candidate (s := g s) (c := f c) ?_ (hall s c hc) (ih s hs c hc hid)
      rw [h.slots]
      exact List.mem_map_of_mem hs

end Trimming

/-! ### Ratings -/

section Ratings

variable {f : Part → Part} {g : Slot → Slot} (h : Trimming f g)
  (hall : ∀ s, ∀ c ∈ s.candidates, f c ∈ (g s).candidates)

include h hall

/-- The bounds of a slot do not change if nothing is dropped: both ranges are exact for the same
totals. -/
theorem Trimming.bounds_slot (s : Slot) : (g s).bounds = s.bounds :=
  (g s).bounds_exact.unique (h.slot_fillable hall s ▸ s.bounds_exact)

/-- The rating of an item does not change if nothing is dropped. -/
theorem Trimming.rating (m : ConflictMap) (part : Part) : (f part).rating m = part.rating m := by
  have hbounds : (f part).bounds = part.bounds :=
    (f part).bounds_exact.unique (h.part_fillable hall part ▸ part.bounds_exact)
  have hfree : (f part).conflictFree m = part.conflictFree m := by
    rw [Bool.eq_iff_iff, Part.conflictFree_iff, Part.conflictFree_iff]
    exact forall_congr' fun id => imp_congr_left (h.mem_ids hall part)
  rw [Part.rating, Part.rating, hbounds, hfree]

end Ratings

/-! ### Conflicts -/

/-- An item is noted as conflict-free exactly if nothing at or below it is in conflict with an item
attached to the tree from which the conflicts were collected. -/
theorem Part.conflictFree_conflicts_iff {top x : Part} :
    x.conflictFree top.declarations.symmetric = true ↔
      ∀ y, y = x ∨ x.Attached y → ∀ z, top.Attached z →
        ¬ top.declarations.symmetric.Conflicts y.id z.id := by
  rw [Part.conflictFree_iff]
  constructor
  · intro hfree y hy z hz hyz
    have hid : y.id ∈ x.ids := by
      rcases hy with rfl | hy
      · exact y.id_mem_ids
      · exact hy.id_mem_ids
    refine hfree y.id hid ⟨z.id, NameSet.mem_toList.mpr hyz, ?_⟩
    rw [Declarations.candidates_symmetric, Part.mem_candidates_declarations]
    exact ⟨z, hz, rfl⟩
  · rintro hnone id hid ⟨other, hother, hcand⟩
    rw [Declarations.candidates_symmetric, Part.mem_candidates_declarations] at hcand
    obtain ⟨z, hz, rfl⟩ := hcand
    rcases Part.mem_ids_iff_attached.mp hid with rfl | ⟨y, hy, rfl⟩
    · exact hnone x (Or.inl rfl) z hz (NameSet.mem_toList.mp hother)
    · exact hnone y (Or.inr hy) z hz (NameSet.mem_toList.mp hother)

end Gunsmith
