/-
  Relabelled trees.

  A tree is relabelled (`Part.relabelled`) by changing what its nodes know of their items
  and of their slots.  Where the items keep their ids and modifiers and the slots their
  addresses (`Relabelling`), little of the difference is seen: the relabelled tree lists the
  same ids and has the same bounds, its candidates are put into the same order
  (`Relabelling.ordered`), and the same ones are dropped (`Relabelling.prune`).
-/
import Gunsmith.Proofs.Tree.Trimming

namespace Gunsmith

section Relabelled

variable (f : Label → Label) (g : Site → Site)

/-- The tree below an item with other labels for its items and other data for its slots. -/
def Part.relabelled : Part → Part :=
  Part.fold (fun label => Part.mk (f label)) fun site => Slot.mk (g site)

/-- A slot with other data, and the relabelled tree below it. -/
def Slot.relabelled : Slot → Slot :=
  Slot.fold (fun label => Part.mk (f label)) fun site => Slot.mk (g site)

theorem Part.relabelled_eq (part : Part) :
    part.relabelled f g = .mk (f part.label) (part.slots.map (Slot.relabelled f g)) :=
  Part.fold_eq ..

theorem Slot.relabelled_eq (s : Slot) :
    s.relabelled f g = .mk (g s.site) (s.candidates.map (Part.relabelled f g)) :=
  Slot.fold_eq ..

variable {f g} {part c : Part} {s : Slot}

/-- A slot is known by its data and its candidates. -/
theorem Slot.ext {s t : Slot} (hsite : s.site = t.site) (hcandidates : s.candidates = t.candidates) :
    s = t := by
  cases s
  cases t
  exact congrArg₂ Slot.mk hsite hcandidates

theorem Part.label_relabelled : (part.relabelled f g).label = f part.label := by
  rw [relabelled_eq]
  rfl

theorem Part.slots_relabelled :
    (part.relabelled f g).slots = part.slots.map (Slot.relabelled f g) := by
  rw [relabelled_eq]
  rfl

theorem Slot.site_relabelled : (s.relabelled f g).site = g s.site := by
  rw [relabelled_eq]
  rfl

theorem Slot.candidates_relabelled :
    (s.relabelled f g).candidates = s.candidates.map (Part.relabelled f g) := by
  rw [relabelled_eq]
  rfl

/-- A tree whose items and slots stay what they are stays as it is. -/
theorem Part.relabelled_self : part.relabelled (fun label => label) (fun site => site) = part := by
  induction part using Part.induct with
  | mk label slots ih =>
    rw [relabelled_eq]
    show Part.mk label (slots.map _) = _
    congr 1
    refine (List.map_congr_left fun s hs => ?_).trans (List.map_id slots)
    refine Slot.ext Slot.site_relabelled ?_
    rw [Slot.candidates_relabelled]
    exact (List.map_congr_left fun c hc => ih s hs c hc).trans (List.map_id _)

theorem Slot.relabelled_self : s.relabelled (fun label => label) (fun site => site) = s := by
  refine Slot.ext Slot.site_relabelled ?_
  rw [Slot.candidates_relabelled]
  exact (List.map_congr_left fun c _ => Part.relabelled_self).trans (List.map_id _)

/-- A fold over a relabelled tree is a fold over the tree. -/
theorem Part.fold_relabelled {α β : Type} (item : Label → List β → α) (slot : Site → List α → β) :
    Part.fold item slot (part.relabelled f g) =
      Part.fold (fun label => item (f label)) (fun site => slot (g site)) part := by
  induction part using Part.induct_slots with
  | step part ih =>
    rw [fold_eq, fold_eq, label_relabelled, slots_relabelled, List.map_map]
    congr 1
    refine List.map_congr_left fun s hs => ?_
    show Slot.fold item slot (s.relabelled f g) = _
    rw [Slot.fold_eq, Slot.fold_eq, Slot.site_relabelled, Slot.candidates_relabelled,
      List.map_map]
    congr 1
    exact List.map_congr_left fun c hc => ih s hs c hc

theorem Part.allSlots_relabelled :
    (part.relabelled f g).allSlots = part.allSlots.map (Slot.relabelled f g) := by
  induction part using induct_slots with
  | step part ih =>
    rw [allSlots_eq, allSlots_eq, slots_relabelled, List.flatMap_map, List.map_flatMap]
    refine List.flatMap_congr fun s hs => ?_
    rw [Slot.allSlots_eq, Slot.allSlots_eq, Slot.candidates_relabelled, List.map_cons,
      List.flatMap_map, List.map_flatMap]
    congr 1
    exact List.flatMap_congr fun c hc => ih s hs c hc

/-- The items attached to a relabelled tree are those of the tree, relabelled. -/
theorem Part.attached_relabelled_iff :
    (part.relabelled f g).Attached c ↔ ∃ d, part.Attached d ∧ d.relabelled f g = c := by
  unfold Attached
  simp only [allSlots_relabelled, List.mem_map]
  constructor
  · rintro ⟨_, ⟨s, hs, rfl⟩, hc⟩
    rw [Slot.candidates_relabelled, List.mem_map] at hc
    obtain ⟨d, hd, rfl⟩ := hc
    exact ⟨d, ⟨s, hs, hd⟩, rfl⟩
  · rintro ⟨d, ⟨s, hs, hd⟩, rfl⟩
    refine ⟨_, ⟨s, hs, rfl⟩, ?_⟩
    rw [Slot.candidates_relabelled]
    exact List.mem_map_of_mem hd

end Relabelled

/-- Items keep what they are called and what they are worth, and slots keep where they are and what
was dropped from them. -/
structure Relabelling (f : Label → Label) (g : Site → Site) : Prop where
  id_eq : ∀ label, (f label).id = label.id
  name_eq : ∀ label, (f label).name = label.name
  modifiers_eq : ∀ label, (f label).modifiers = label.modifiers
  address_eq : ∀ site, (g site).address = site.address
  pruned_eq : ∀ site, (g site).pruned = site.pruned

namespace Relabelling

variable {f : Label → Label} {g : Site → Site} (h : Relabelling f g) {part a b : Part}
  {m : ConflictMap} {stat : Stat}

include h

theorem id (part : Part) : (part.relabelled f g).id = part.id := by
  rw [Part.id, Part.label_relabelled, h.id_eq]
  rfl

theorem ids : (part.relabelled f g).ids = part.ids := by
  unfold Part.ids
  rw [Part.fold_relabelled]
  simp only [h.id_eq]

theorem conflictFree : (part.relabelled f g).conflictFree m = part.conflictFree m := by
  unfold Part.conflictFree
  rw [Part.fold_relabelled]
  simp only [h.id_eq]

theorem bounds : (part.relabelled f g).bounds = part.bounds := by
  unfold Part.bounds
  rw [Part.fold_relabelled]
  congr 1
  funext label
  unfold Bounds.ofItem
  rw [h.modifiers_eq]

theorem distinctAddresses (hd : part.DistinctAddresses) :
    (part.relabelled f g).DistinctAddresses := by
  have hsame : (part.relabelled f g).addresses = part.addresses := by
    unfold Part.addresses
    rw [Part.allSlots_relabelled, List.map_map]
    refine List.map_congr_left fun s _ => ?_
    show (s.relabelled f g).site.address = _
    rw [Slot.site_relabelled, h.address_eq]
  unfold Part.DistinctAddresses
  rw [hsame]
  exact hd

theorem rivalIds : (part.relabelled f g).rivalIds m = part.rivalIds m := by
  unfold Part.rivalIds
  rw [Part.allSlots_relabelled, List.flatMap_map]
  congr 1
  refine List.flatMap_congr fun s _ => ?_
  rw [Slot.site_relabelled, h.pruned_eq, Slot.candidates_relabelled, List.flatMap_map]
  congr 1
  refine List.flatMap_congr fun c _ => ?_
  rw [h.conflictFree, h.ids]

/-! ### Order and pruning -/

theorem precedes_iff :
    (a.relabelled f g).Precedes stat (b.relabelled f g) ↔ a.Precedes stat b := by
  unfold Part.Precedes
  rw [h.bounds, h.bounds, Part.label_relabelled, Part.label_relabelled, h.modifiers_eq, h.modifiers_eq,
    h.id, h.id]

/-- **Relabelling keeps the order**: the candidates of a relabelled tree are tried in the order of
the tree. -/
theorem ordered : (part.relabelled f g).ordered stat = (part.ordered stat).relabelled f g := by
  induction part using Part.induct_slots with
  | step part ih =>
    rw [Part.ordered_eq, Part.ordered_eq, Part.relabelled_eq, Part.relabelled_eq]
    show Part.mk (f part.label) ((part.slots.map _).map _) =
      Part.mk (f part.label) ((part.slots.map _).map _)
    rw [List.map_map, List.map_map]
    congr 1
    refine List.map_congr_left fun s hs => ?_
    show (s.relabelled f g).ordered stat = (s.ordered stat).relabelled f g
    have hbelow : (s.candidates.map (Part.relabelled f g)).map (Part.ordered stat) =
        (s.candidates.map (Part.ordered stat)).map (Part.relabelled f g) := by
      rw [List.map_map, List.map_map]
      exact List.map_congr_left fun c hc => ih s hs c hc
    rw [Slot.ordered_eq, Slot.ordered_eq, Slot.relabelled_eq, Slot.relabelled_eq]
    show Slot.mk (g s.site) (((s.candidates.map _).map _).mergeSort _) =
      Slot.mk (g s.site) (((s.candidates.map _).mergeSort _).map _)
    -- Sorting goes by what relabelling keeps.
    rw [hbelow, List.map_mergeSort]
    intro a _ b _
    exact decide_eq_decide.mpr h.precedes_iff.symm

theorem rating : (part.relabelled f g).rating m = part.rating m := by
  unfold Part.rating
  rw [h.bounds, h.conflictFree]

theorem removedMarks (s : Slot) :
    (s.relabelled f g).removedMarks m stat = s.removedMarks m stat := by
  unfold Slot.removedMarks
  rw [Slot.candidates_relabelled, List.map_map]
  congr 1
  exact List.map_congr_left fun c _ => h.rating

end Relabelling

/-- **Relabelling keeps the pruning**: as long as the slots stay what they are, the candidates that
are dropped from a relabelled tree are those dropped from the tree. -/
theorem Relabelling.prune {f : Label → Label} (h : Relabelling f fun site => site) {part : Part}
    {m : ConflictMap} {stat : Stat} :
    (part.relabelled f fun site => site).prune m stat =
      (part.prune m stat).relabelled f fun site => site := by
  induction part using Part.induct_slots with
  | step part ih =>
    rw [Part.prune_eq, Part.prune_eq, Part.relabelled_eq, Part.relabelled_eq]
    show Part.mk (f part.label) ((part.slots.map _).map _) =
      Part.mk (f part.label) ((part.slots.map _).map _)
    rw [List.map_map, List.map_map]
    congr 1
    refine List.map_congr_left fun s hs => ?_
    have hbelow : (s.candidates.map (Part.relabelled f fun site => site)).map (Part.prune m stat) =
        (s.candidates.map (Part.prune m stat)).map (Part.relabelled f fun site => site) := by
      rw [List.map_map, List.map_map]
      exact List.map_congr_left fun c hc => ih s hs c hc
    have hids : ∀ cs : List Part,
        (cs.map (Part.relabelled f fun site => site)).map Part.id = cs.map Part.id := by
      intro cs
      rw [List.map_map]
      exact List.map_congr_left fun c _ => h.id c
    refine Slot.ext ?_ ?_
    · show ((s.relabelled f _).prune m stat).site = ((s.prune m stat).relabelled f _).site
      rw [Slot.site_prune, Slot.site_relabelled, Slot.site_relabelled, Slot.site_prune,
        h.removedMarks, Slot.candidates_relabelled, selectMarked_map, hids]
    · show ((s.relabelled f _).prune m stat).candidates =
        ((s.prune m stat).relabelled f _).candidates
      rw [Slot.candidates_prune, Slot.candidates_relabelled, Slot.candidates_relabelled,
        Slot.candidates_prune, h.removedMarks, hbelow, selectMarked_map]

end Gunsmith
