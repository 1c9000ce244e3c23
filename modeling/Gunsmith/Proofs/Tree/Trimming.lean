/-
  Reordering and dropping candidates.

  The finished tree is the expansion with candidates put into order (`Part.ordered`) and
  with some of them dropped (`Part.prune`).  Neither touches an item or removes a slot:
  both are a `Trimming`, a pair of functions on items and slots that keep labels, act on
  the slots of an item one by one, and offer as candidates for a slot some of those that
  the slot had before.

  So whatever a trimmed tree has, the tree had before: its ids, its attached items, its
  slots (`Trimming.subperm_allSlots`) and, with the same ids and sums, its fillings
  (`Trimming.fills`).  A trimming that drops nothing keeps all fillings
  (`Trimming.fills_mapped`).
-/
import Gunsmith.Tree.Candidates
import Gunsmith.Proofs.Tree.Filling
import Mathlib.Data.List.Perm.Subperm
import Mathlib.Tactic.SplitIfs

namespace Gunsmith

/-! ### Lists of lists -/

section Subperm

variable {α β : Type} {xs ys : List α}

theorem subperm_map (h : xs.Subperm ys) (f : α → β) : (xs.map f).Subperm (ys.map f) := by
  obtain ⟨zs, hp, hs⟩ := h
  exact ⟨zs.map f, hp.map f, hs.map f⟩

theorem subperm_flatMap (h : xs.Subperm ys) (f : α → List β) :
    (xs.flatMap f).Subperm (ys.flatMap f) := by
  obtain ⟨zs, hp, hs⟩ := h
  exact ⟨zs.flatMap f, hp.flatMap_right f, hs.flatMap f⟩

theorem subperm_flatMap_of_forall {f g : α → List β} (h : ∀ x ∈ xs, (f x).Subperm (g x)) :
    (xs.flatMap f).Subperm (xs.flatMap g) := by
  induction xs with
  | nil => exact List.Subperm.refl _
  | cons x xs ih =>
    rw [List.flatMap_cons, List.flatMap_cons]
    exact (h x List.mem_cons_self).append (ih fun y hy => h y (List.mem_cons_of_mem _ hy))

end Subperm

/-! ### Trimmings -/

/-- Functions on items and slots that keep labels, act on the slots of an item one by one, and
offer for a slot only what was offered before. -/
structure Trimming (f : Part → Part) (g : Slot → Slot) : Prop where
  label : ∀ part, (f part).label = part.label
  slots : ∀ part, (f part).slots = part.slots.map g
  candidates : ∀ slot, (g slot).candidates.Subperm (slot.candidates.map f)

/-- The decision for the trimmed slot and the trimmed item. -/
def Decision.mapped (f : Part → Part) (g : Slot → Slot) (d : Decision) : Decision :=
  ⟨g d.slot, d.part.map f⟩

namespace Trimming

variable {f f' : Part → Part} {g g' : Slot → Slot} (h : Trimming f g)

include h

theorem comp (h' : Trimming f' g') : Trimming (fun part => f' (f part)) (fun s => g' (g s)) where
  label part := (h'.label _).trans (h.label part)
  slots part := by
    rw [h'.slots, h.slots, List.map_map]
    rfl
  candidates slot := by
    refine (h'.candidates _).trans ?_
    have hmap := subperm_map (h.candidates slot) f'
    rw [List.map_map] at hmap
    exact hmap

theorem id (part : Part) : (f part).id = part.id :=
  congrArg Label.id (h.label part)

theorem mem_candidates {slot : Slot} {c : Part} (hc : c ∈ (g slot).candidates) :
    ∃ d ∈ slot.candidates, f d = c :=
  List.mem_map.mp ((h.candidates slot).subset hc)

/-- The slots of a trimmed tree are slots that the tree had before, trimmed. -/
theorem subperm_allSlots (part : Part) : (f part).allSlots.Subperm (part.allSlots.map g) := by
  induction part using Part.induct_slots with
  | step part ih =>
    rw [Part.allSlots_eq, Part.allSlots_eq, h.slots, List.flatMap_map, List.map_flatMap]
    refine subperm_flatMap_of_forall fun s hs => ?_
    rw [Slot.allSlots_eq, Slot.allSlots_eq, List.map_cons, List.map_flatMap,
      List.subperm_cons]
    refine (subperm_flatMap (h.candidates s) _).trans ?_
    rw [List.flatMap_map]
    exact subperm_flatMap_of_forall fun c hc => ih s hs c hc

theorem mem_allSlots {part : Part} {s : Slot} (hs : s ∈ (f part).allSlots) :
    ∃ t ∈ part.allSlots, g t = s :=
  List.mem_map.mp ((h.subperm_allSlots part).subset hs)

theorem attached {top c : Part} (hc : (f top).Attached c) : ∃ d, top.Attached d ∧ f d = c := by
  obtain ⟨s, hs, hc⟩ := hc
  obtain ⟨t, ht, rfl⟩ := h.mem_allSlots hs
  obtain ⟨d, hd, rfl⟩ := h.mem_candidates hc
  exact ⟨d, ⟨t, ht, hd⟩, rfl⟩

theorem ids_subset (part : Part) : (f part).ids ⊆ part.ids := by
  intro id hid
  rw [Part.mem_ids_iff_attached] at hid ⊢
  rcases hid with rfl | ⟨c, hc, rfl⟩
  · exact Or.inl (h.id part)
  · obtain ⟨d, hd, rfl⟩ := h.attached hc
    exact Or.inr ⟨d, hd, h.id d⟩

/-! ### Fillings of trimmed trees -/

omit h in
theorem mounted_mapped (ds : List Decision) :
    Decision.mounted (ds.map (Decision.mapped f g)) = (Decision.mounted ds).map f := by
  unfold Decision.mounted
  rw [List.filterMap_map, List.map_filterMap]
  rfl

theorem ids_mapped (ds : List Decision) :
    Decision.ids (ds.map (Decision.mapped f g)) = Decision.ids ds := by
  unfold Decision.ids
  rw [mounted_mapped, List.map_map]
  exact List.map_congr_left fun c _ => h.id c

theorem sums_mapped (ds : List Decision) :
    Decision.sums (ds.map (Decision.mapped f g)) = Decision.sums ds := by
  unfold Decision.sums
  rw [mounted_mapped, List.map_map]
  congr 1
  exact List.map_congr_left fun c _ => congrArg Label.modifiers (h.label c)

/-- What fills the trimmed slots is what fills the slots, trimmed. -/
theorem fills {slots : List Slot} : ∀ {ds : List Decision}, Fills (slots.map g) ds →
    ∃ es, Fills slots es ∧ ds = es.map (Decision.mapped f g) := by
  induction slots using Slot.induct_work with
  | nil =>
    intro ds hds
    rw [List.map_nil, fills_nil_iff] at hds
    exact ⟨[], Fills.nil, hds⟩
  | cons s ss ihr ihc =>
    intro ds hds
    rcases fills_cons_iff.mp hds with ⟨es, rfl, hes⟩ | ⟨c, hc, es, rfl, hes⟩
    · obtain ⟨es', hes', rfl⟩ := ihr hes
      exact ⟨⟨s, none⟩ :: es', Fills.skip hes', rfl⟩
    · obtain ⟨d, hd, rfl⟩ := h.mem_candidates hc
      obtain ⟨e₁, e₂, rfl, h₁, h₂⟩ := fills_append_iff.mp hes
      rw [h.slots] at h₁
      obtain ⟨d₁, hd₁, rfl⟩ := (ihc d hd).1 h₁
      obtain ⟨d₂, hd₂, rfl⟩ := ihr h₂
      refine ⟨⟨s, some d⟩ :: (d₁ ++ d₂), Fills.mount hd (hd₁.append hd₂), ?_⟩
      rw [List.map_cons, List.map_append]
      rfl

/-- If nothing is dropped, then what fills the slots still does so once they are trimmed. -/
theorem fills_mapped (hall : ∀ s, ∀ c ∈ s.candidates, f c ∈ (g s).candidates) {slots : List Slot}
    {ds : List Decision} (hds : Fills slots ds) :
    Fills (slots.map g) (ds.map (Decision.mapped f g)) := by
  induction hds with
  | nil => exact Fills.nil
  | skip _ ih => exact Fills.skip ih
  | @mount s ss ds c hc _ ih =>
    rw [List.map_append, ← h.slots] at ih
    exact Fills.mount (hall s c hc) ih

end Trimming

/-! ### The order of candidates -/

section Ordered

variable (stat : Stat)

/-- A slot with the candidates in order, at the slot and everywhere below it. -/
def Slot.ordered : Slot → Slot :=
  Slot.fold Part.mk fun site candidates =>
    Slot.mk site (candidates.mergeSort fun a b => decide (a.Precedes stat b))

theorem Part.ordered_eq (part : Part) :
    part.ordered stat = .mk part.label (part.slots.map (Slot.ordered stat)) :=
  Part.fold_eq ..

theorem Slot.ordered_eq (s : Slot) :
    s.ordered stat = .mk s.site
      ((s.candidates.map (Part.ordered stat)).mergeSort fun a b => decide (a.Precedes stat b)) :=
  Slot.fold_eq ..

theorem Slot.perm_candidates_ordered (s : Slot) :
    (s.ordered stat).candidates.Perm (s.candidates.map (Part.ordered stat)) := by
  rw [Slot.ordered_eq]
  exact List.mergeSort_perm _ _

theorem trimming_ordered : Trimming (Part.ordered stat) (Slot.ordered stat) where
  label part := by
    rw [Part.ordered_eq]
    rfl
  slots part := by
    rw [Part.ordered_eq]
    rfl
  candidates s := (s.perm_candidates_ordered stat).subperm

theorem Slot.mem_candidates_ordered (s : Slot) (c : Part) (hc : c ∈ s.candidates) :
    c.ordered stat ∈ (s.ordered stat).candidates :=
  (s.perm_candidates_ordered stat).mem_iff.mpr (List.mem_map_of_mem hc)

end Ordered

/-! ### Marked members of a list -/

section Marked

variable {α β : Type} {wanted : Bool} {x : α}

theorem mem_selectMarked {xs : List α} {marks : List Bool} :
    x ∈ selectMarked wanted xs marks ↔ ∃ j : Nat, xs[j]? = some x ∧ marks[j]? = some wanted := by
  unfold selectMarked
  simp only [List.mem_map, List.mem_filter, beq_iff_eq]
  constructor
  · rintro ⟨⟨y, mark⟩, ⟨hmem, rfl⟩, rfl⟩
    obtain ⟨j, hj⟩ := List.mem_iff_getElem?.mp hmem
    exact ⟨j, List.getElem?_zip_eq_some.mp hj⟩
  · rintro ⟨j, hx, hm⟩
    exact ⟨(x, wanted), ⟨List.mem_of_getElem? (List.getElem?_zip_eq_some.mpr ⟨hx, hm⟩), rfl⟩, rfl⟩

theorem selectMarked_sublist (xs : List α) (marks : List Bool) :
    (selectMarked wanted xs marks).Sublist xs := by
  unfold selectMarked
  induction xs generalizing marks with
  | nil => exact List.Sublist.slnil
  | cons x xs ih =>
    cases marks with
    | nil => exact List.nil_sublist _
    | cons mark marks =>
      rw [List.zip_cons_cons, List.filter_cons]
      split_ifs
      · exact (ih marks).cons_cons x
      · exact (ih marks).cons x

theorem selectMarked_map (f : α → β) (wanted : Bool) (xs : List α) (marks : List Bool) :
    selectMarked wanted (xs.map f) marks = (selectMarked wanted xs marks).map f := by
  unfold selectMarked
  rw [← List.map_id marks, List.zip_map, List.filter_map, List.map_map, List.map_map, List.map_id]
  rfl

end Marked

/-! ### Pruning -/

section Pruned

variable (m : ConflictMap) (stat : Stat)

theorem Slot.pruneAll_eq_map (slots : List Slot) :
    Slot.pruneAll m stat slots = slots.map (Slot.prune m stat) := by
  induction slots with
  | nil => rw [Slot.pruneAll, List.map_nil]
  | cons s ss ih => rw [Slot.pruneAll, ih, List.map_cons]

theorem Part.pruneAll_eq_map (parts : List Part) :
    Part.pruneAll m stat parts = parts.map (Part.prune m stat) := by
  induction parts with
  | nil => rw [Part.pruneAll, List.map_nil]
  | cons c cs ih => rw [Part.pruneAll, ih, List.map_cons]

theorem Part.prune_eq (part : Part) :
    part.prune m stat = .mk part.label (part.slots.map (Slot.prune m stat)) := by
  obtain ⟨label, slots⟩ := part
  rw [Part.prune, Slot.pruneAll_eq_map]
  rfl

/-- For each candidate for a slot, in order: some other candidate removes it. -/
def Slot.removedMarks (s : Slot) : List Bool :=
  Rating.removed stat (s.candidates.map (Part.rating m))

theorem Slot.site_prune (s : Slot) :
    (s.prune m stat).site =
      { s.site with
        pruned := s.site.pruned ++
          (selectMarked true s.candidates (s.removedMarks m stat)).map Part.id } := by
  obtain ⟨site, candidates⟩ := s
  rw [Slot.prune]
  rfl

theorem Slot.candidates_prune (s : Slot) :
    (s.prune m stat).candidates =
      selectMarked false (s.candidates.map (Part.prune m stat)) (s.removedMarks m stat) := by
  obtain ⟨site, candidates⟩ := s
  rw [Slot.prune, Part.pruneAll_eq_map]
  rfl

theorem trimming_prune : Trimming (Part.prune m stat) (Slot.prune m stat) where
  label part := by
    rw [Part.prune_eq]
    rfl
  slots part := by
    rw [Part.prune_eq]
    rfl
  candidates s := by
    rw [Slot.candidates_prune]
    exact (selectMarked_sublist _ _).subperm

/-! ### The finished tree -/

/-- The form that an item of the expansion has in the finished tree. -/
def Part.finished (part : Part) : Part := (part.ordered stat).prune m stat

/-- The form that a slot of the expansion has in the finished tree. -/
def Slot.finished (s : Slot) : Slot := (s.ordered stat).prune m stat

theorem trimming_finished : Trimming (Part.finished m stat) (Slot.finished m stat) :=
  (trimming_ordered stat).comp (trimming_prune m stat)

/-- In the finished tree a slot is what it was, up to the candidates dropped from it. -/
theorem Slot.site_finished (s : Slot) :
    ∃ pruned, (s.finished m stat).site = { s.site with pruned := pruned } := by
  unfold Slot.finished
  rw [Slot.site_prune, Slot.ordered_eq]
  exact ⟨_, rfl⟩

end Pruned

end Gunsmith
