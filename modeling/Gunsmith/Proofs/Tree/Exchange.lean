/-
  Pruning loses nothing.

  A candidate is dropped when a conflict-free rival outranks it, and the rival may have
  been dropped itself.  Removal is transitive and has no circles, so of the rivals that remove
  a candidate one is kept (`Slot.exists_kept_remover`).

  A way to fill the slots before pruning can be exchanged for one after pruning that can
  stand in for it (`StandsIn`, `exchange_pruned`) and is at least as good: wherever it mounts
  a dropped candidate, the kept rival is mounted instead, together with what makes the most
  of it.  Everything that comes in by the exchange belongs to a conflict-free rival, so it is
  in conflict with nothing, and it is listed in `Part.rivalIds`, so it is not excluded when
  the exclusions are accepted.  Hence the best feasible build is worth the same before and
  after (`Part.isBest_prune_iff`).
-/
import Gunsmith.Proofs.Tree.Removal

namespace Gunsmith

/-! ### Removal -/

namespace Slot

variable (m : ConflictMap) (stat : Stat) (s : Slot)

/-- The candidate at position `k` removes the one at position `j`. -/
def Removes (k j : Fin s.candidates.length) : Prop :=
  (s.candidates[k].rating m).Removes stat k (s.candidates[j].rating m) j

instance (k j : Fin s.candidates.length) : Decidable (s.Removes m stat k j) :=
  inferInstanceAs (Decidable (Rating.Removes ..))

/-- The mark of a candidate says whether another one removes it. -/
theorem getElem?_removedMarks (j : Fin s.candidates.length) :
    (s.removedMarks m stat)[(j : Nat)]? = some (decide (∃ k, s.Removes m stat k j)) := by
  show (Rating.marks stat (Part.rating m) s.candidates)[(j : Nat)]? = _
  rw [Rating.getElem?_marks, decide_eq_true_eq]
  exact Iff.rfl

variable {m stat s}

/-- **Of the rivals that remove a candidate one is kept.** -/
theorem exists_kept_remover {j : Fin s.candidates.length} (h : ∃ k, s.Removes m stat k j) :
    ∃ k, s.Removes m stat k j ∧ ¬ ∃ i, s.Removes m stat i k := by
  have hproper : ∀ c ∈ s.candidates, (c.rating m).bounds.Proper := fun c _ => c.proper_bounds
  exact Rating.exists_kept_dropping hproper h

/-- The candidates that no other candidate removes are kept, with the slots below them pruned. -/
theorem mem_candidates_prune {c : Part} :
    c ∈ (s.prune m stat).candidates ↔
      ∃ j : Fin s.candidates.length, (¬ ∃ k, s.Removes m stat k j) ∧
        s.candidates[j].prune m stat = c := by
  rw [candidates_prune, mem_selectMarked]
  constructor
  · rintro ⟨j, hc, hmark⟩
    rw [List.getElem?_map] at hc
    obtain ⟨d, hd, rfl⟩ := Option.map_eq_some_iff.mp hc
    obtain ⟨hj, hget⟩ := List.getElem?_eq_some_iff.mp hd
    rw [getElem?_removedMarks m stat s ⟨j, hj⟩, Option.some.injEq, decide_eq_false_iff_not] at hmark
    exact ⟨⟨j, hj⟩, hmark, congrArg _ hget⟩
  · rintro ⟨j, hkept, rfl⟩
    refine ⟨j, ?_, ?_⟩
    · rw [List.getElem?_map, List.getElem?_eq_getElem j.isLt]
      rfl
    · rw [getElem?_removedMarks, decide_eq_false hkept]

/-- A slot records that something was dropped from it. -/
theorem pruned_ne_nil {j : Fin s.candidates.length} (h : ∃ k, s.Removes m stat k j) :
    (s.prune m stat).site.pruned ≠ [] := by
  have hmem : s.candidates[j] ∈ selectMarked true s.candidates (s.removedMarks m stat) :=
    mem_selectMarked.mpr ⟨j, List.getElem?_eq_getElem j.isLt, by
      rw [getElem?_removedMarks, decide_eq_true h]⟩
  rw [site_prune]
  exact List.append_ne_nil_of_right_ne_nil _
    (List.ne_nil_of_mem (List.mem_map_of_mem (f := Part.id) hmem))

end Slot

/-! ### Rivals -/

/-- The item stands at or below a conflict-free candidate for a slot from which something was
dropped. -/
def Rival (m : ConflictMap) (slots : List Slot) (id : String) : Prop :=
  ∃ s ∈ slots.flatMap Slot.allSlots, s.site.pruned ≠ [] ∧
    ∃ c ∈ s.candidates, c.conflictFree m = true ∧ id ∈ c.ids

section Rival

variable {m : ConflictMap} {id : String} {s : Slot} {ss : List Slot}

theorem Part.mem_rivalIds {part : Part} : id ∈ part.rivalIds m ↔ Rival m part.slots id := by
  unfold Part.rivalIds Rival
  rw [NameSet.mem_ofList, ← Part.allSlots_eq, List.mem_flatMap]
  refine exists_congr fun s => and_congr_right fun _ => ?_
  by_cases hp : s.site.pruned = []
  · simp [hp]
  · rw [if_neg (by rwa [List.isEmpty_iff]), List.mem_flatMap]
    simp only [hp, ne_eq, not_false_eq_true, true_and]
    refine exists_congr fun c => and_congr_right fun _ => ?_
    by_cases hfree : c.conflictFree m = true
    · rw [if_pos hfree]
      exact ⟨fun hid => ⟨hfree, hid⟩, And.right⟩
    · rw [if_neg hfree]
      exact ⟨fun hid => absurd hid List.not_mem_nil, fun h => absurd h.1 hfree⟩

theorem Rival.tail (h : Rival m ss id) : Rival m (s :: ss) id := by
  obtain ⟨t, ht, h⟩ := h
  rw [Rival, List.flatMap_cons]
  exact ⟨t, List.mem_append_right _ ht, h⟩

theorem Rival.below {c : Part} (hc : c ∈ s.candidates) (h : Rival m c.slots id) :
    Rival m (s :: ss) id := by
  obtain ⟨t, ht, h⟩ := h
  rw [← Part.allSlots_eq] at ht
  refine ⟨t, ?_, h⟩
  rw [List.flatMap_cons, Slot.allSlots_eq]
  exact List.mem_append_left _ (List.mem_cons_of_mem _ (List.mem_flatMap.mpr ⟨c, hc, ht⟩))

theorem Rival.here {c : Part} (hp : s.site.pruned ≠ []) (hc : c ∈ s.candidates)
    (hfree : c.conflictFree m = true) (hid : id ∈ c.ids) : Rival m (s :: ss) id := by
  refine ⟨s, ?_, hp, c, hc, hfree, hid⟩
  rw [List.flatMap_cons, Slot.allSlots_eq]
  exact List.mem_append_left _ List.mem_cons_self

/-- Rivals are in conflict with no candidate. -/
theorem Rival.not_live (h : Rival m ss id) : ¬ m.Live id := by
  obtain ⟨s, -, -, c, -, hfree, hid⟩ := h
  exact Part.conflictFree_iff.mp hfree id hid

end Rival

/-! ### The exchange -/

open Decision

section Exchange

variable {m : ConflictMap} {stat : Stat}

/-- A candidate that removes another one can be filled so as to be at least as good as any filling
of the other one. -/
theorem Slot.Removes.exists_fills {s : Slot} {k j : Fin s.candidates.length}
    (h : s.Removes m stat k j) {ds : List Decision} (hds : Fills s.candidates[j].slots ds) :
    ∃ es, Fills s.candidates[k].slots es ∧
      Totals.AtLeast stat (s.candidates[k].totals es) (s.candidates[j].totals ds) := by
  obtain ⟨es, hes, hval⟩ := Part.exists_extreme stat stat s.candidates[k]
  rw [← Bounds.best_eq] at hval
  refine ⟨es, hes, Totals.atLeast_iff.mpr ?_⟩
  have htarget := fun t : Stat => Part.not_better_extreme t t hds
  simp only [← Bounds.best_eq] at htarget
  have hrival := Part.not_better_extreme stat stat.secondary hes
  have hworst := Bounds.worst_eq stat.secondary s.candidates[k].bounds
  rw [Stat.secondary_secondary] at hworst
  rw [← hworst, ← Stat.better_secondary] at hrival
  rw [hval]
  rcases h.2.2 with hbest | ⟨hbest, hsec⟩
  · exact Or.inl (Stat.better_of_better_of_not_better hbest (htarget stat))
  · by_cases hb : stat.Better (s.candidates[k].bounds.best stat)
        ((s.candidates[j].totals ds).pick stat)
    · exact Or.inl hb
    · refine Or.inr ⟨Stat.eq_of_not_better hb (hbest ▸ htarget stat), fun hbetter => ?_⟩
      -- The worst that the rival can show is no worse than the best of the target.
      rcases hsec with hsec | ⟨hsec, -⟩
      · exact htarget stat.secondary (hbetter.trans
          (Stat.better_of_not_better_of_better hrival hsec))
      · exact htarget stat.secondary (Stat.better_of_better_of_not_better hbetter (hsec ▸ hrival))

/-- Once the slots are pruned, `es` can stand in for `ds`: it fills them, is at least as good, and
brings in only items of rivals without live conflicts. -/
structure StandsIn (m : ConflictMap) (stat : Stat) (slots : List Slot) (es ds : List Decision) :
    Prop where
  fills : Fills (slots.map (Slot.prune m stat)) es
  atLeast : Totals.AtLeast stat (sums es) (sums ds)
  brought : ∀ id ∈ ids es, id ∈ ids ds ∨
    (Rival m (slots.map (Slot.prune m stat)) id ∧ ¬ m.Live id)

namespace StandsIn

variable {s : Slot} {ss : List Slot} {ds es ds' es' : List Decision}

/-- A slot that is left empty stays empty. -/
theorem skip (h : StandsIn m stat ss es ds) :
    StandsIn m stat (s :: ss) (⟨s.prune m stat, none⟩ :: es) (⟨s, none⟩ :: ds) where
  fills := Fills.skip h.fills
  atLeast := h.atLeast
  brought := fun id hid => (h.brought id hid).imp_right fun h => ⟨h.1.tail, h.2⟩

/-- A candidate that is kept stays, and what is mounted below it is exchanged. -/
theorem keep {j : Fin s.candidates.length} (hkept : ¬ ∃ k, s.Removes m stat k j)
    (hbelow : StandsIn m stat s.candidates[j].slots es ds) (hrest : StandsIn m stat ss es' ds') :
    StandsIn m stat (s :: ss)
      (⟨s.prune m stat, some (s.candidates[j].prune m stat)⟩ :: (es ++ es'))
      (⟨s, some s.candidates[j]⟩ :: (ds ++ ds')) := by
  have hmem : s.candidates[j].prune m stat ∈ (s.prune m stat).candidates :=
    Slot.mem_candidates_prune.mpr ⟨j, hkept, rfl⟩
  obtain ⟨hfills, hle, hids⟩ := hbelow
  rw [← (trimming_prune m stat).slots] at hfills hids
  refine ⟨Fills.mount hmem (hfills.append hrest.fills), ?_, fun id hid => ?_⟩
  · rw [sums_cons_some, sums_cons_some, sums_append, sums_append, (trimming_prune m stat).label]
    exact Totals.AtLeast.add (Totals.AtLeast.refl _ _) (Totals.AtLeast.add hle hrest.atLeast)
  · rw [ids_cons_some, ids_append, (trimming_prune m stat).id] at hid
    rw [ids_cons_some, ids_append]
    rcases List.mem_cons.mp hid with rfl | hid
    · exact Or.inl List.mem_cons_self
    rcases List.mem_append.mp hid with hid | hid
    · refine (hids id hid).imp (fun h => ?_) fun h => ⟨Rival.below hmem h.1, h.2⟩
      exact List.mem_cons_of_mem _ (List.mem_append_left _ h)
    · refine (hrest.brought id hid).imp (fun h => ?_) fun h => ⟨h.1.tail, h.2⟩
      exact List.mem_cons_of_mem _ (List.mem_append_right _ h)

/-- A kept rival takes the place of a candidate that is dropped. -/
theorem replace {k j : Fin s.candidates.length} (hk : s.Removes m stat k j)
    (hkept : ¬ ∃ i, s.Removes m stat i k) {fs : List Decision}
    (hbetter : Totals.AtLeast stat (s.candidates[k].totals fs) (s.candidates[j].totals ds))
    (hbelow : StandsIn m stat s.candidates[k].slots es fs) (hrest : StandsIn m stat ss es' ds') :
    StandsIn m stat (s :: ss)
      (⟨s.prune m stat, some (s.candidates[k].prune m stat)⟩ :: (es ++ es'))
      (⟨s, some s.candidates[j]⟩ :: (ds ++ ds')) := by
  have hmem : s.candidates[k].prune m stat ∈ (s.prune m stat).candidates :=
    Slot.mem_candidates_prune.mpr ⟨k, hkept, rfl⟩
  have hfills := hbelow.fills
  rw [← (trimming_prune m stat).slots] at hfills
  refine ⟨Fills.mount hmem (hfills.append hrest.fills), ?_, fun id hid => ?_⟩
  · rw [sums_cons_some, sums_cons_some, sums_append, sums_append, ← add_assoc, ← add_assoc,
      (trimming_prune m stat).label]
    refine Totals.AtLeast.add (Totals.AtLeast.trans ?_ hbetter) hrest.atLeast
    exact Totals.AtLeast.add (Totals.AtLeast.refl _ _) hbelow.atLeast
  · rw [ids_cons_some, ids_append, ← List.cons_append] at hid
    rcases List.mem_append.mp hid with hid | hid
    · -- The rival has no live conflicts, and neither has anything below it.
      right
      have hfree : (s.candidates[k].prune m stat).conflictFree m = true :=
        Part.conflictFree_of_ids_subset hk.1 ((trimming_prune m stat).ids_subset _)
      have hbrought : id ∈ (s.candidates[k].prune m stat).ids := by
        rcases List.mem_cons.mp hid with rfl | hid'
        · exact Part.id_mem_ids _
        · exact hfills.ids_subset hid'
      exact ⟨Rival.here (Slot.pruned_ne_nil ⟨k, hk⟩) hmem hfree hbrought,
        Part.conflictFree_iff.mp hfree id hbrought⟩
    · refine (hrest.brought id hid).imp (fun h => ?_) fun h => ⟨h.1.tail, h.2⟩
      rw [ids_cons_some, ids_append]
      exact List.mem_cons_of_mem _ (List.mem_append_right _ h)

end StandsIn

/-- **The exchange**: for whatever fills the slots there is something that can stand in for it once
they are pruned. -/
theorem exchange_pruned (m : ConflictMap) (stat : Stat) (slots : List Slot) :
    ∀ {ds : List Decision}, Fills slots ds → ∃ es, StandsIn m stat slots es ds := by
  induction slots using Slot.induct_work with
  | nil =>
    intro ds hds
    rw [fills_nil_iff.mp hds]
    exact ⟨[], Fills.nil, Totals.AtLeast.refl _ _, fun id hid => Or.inl hid⟩
  | cons s ss ihr ihc =>
    intro ds hds
    rcases fills_cons_iff.mp hds with ⟨es, rfl, hes⟩ | ⟨c, hc, es, rfl, hes⟩
    · obtain ⟨fs, hfs⟩ := ihr hes
      exact ⟨_, hfs.skip⟩
    obtain ⟨d, e, rfl, hd, he⟩ := fills_append_iff.mp hes
    obtain ⟨e', he'⟩ := ihr he
    obtain ⟨j, hj, rfl⟩ := List.getElem_of_mem hc
    by_cases hrem : ∃ k, s.Removes m stat k ⟨j, hj⟩
    · -- The rival need not be filled like the candidate, only as well as any filling of it.
      obtain ⟨k, hk, hkept⟩ := Slot.exists_kept_remover hrem
      obtain ⟨f, hf, hbetter⟩ := hk.exists_fills hd
      obtain ⟨f', hf'⟩ := (ihc _ (List.getElem_mem k.isLt)).1 hf
      exact ⟨_, StandsIn.replace hk hkept hbetter hf' he'⟩
    · obtain ⟨d', hd'⟩ := (ihc _ hc).1 hd
      exact ⟨_, StandsIn.keep hrem hd' he'⟩

end Exchange

/-! ### The best build -/

section Best

variable {m : ConflictMap} {stat : Stat} {excluded : NameSet} {part : Part} {ds : List Decision}
  {f : Part → Part} {g : Slot → Slot}

/-- A build of a trimmed item is a build of the item, worth the same. -/
theorem Trimming.exists_feasible (h : Trimming f g) (hds : (f part).Feasible m excluded ds) :
    ∃ es, part.Feasible m excluded es ∧ part.totals es = (f part).totals ds := by
  have hfills := hds.fills
  rw [h.slots] at hfills
  obtain ⟨es, hes, rfl⟩ := h.fills hfills
  have hallow := hds.allowed
  rw [h.ids_mapped] at hallow
  refine ⟨es, ⟨hes, hallow⟩, ?_⟩
  rw [Part.totals, Part.totals, h.sums_mapped, h.label]

theorem Trimming.reachable_subset (h : Trimming f g) :
    (f part).reachable m excluded ⊆ part.reachable m excluded := by
  rintro t ⟨ds, hds, rfl⟩
  obtain ⟨es, hes, heq⟩ := h.exists_feasible hds
  exact ⟨es, hes, heq⟩

/-- The order of candidates does not matter for what can be built. -/
theorem Part.reachable_ordered (stat : Stat) (part : Part) :
    (part.ordered stat).reachable m excluded = part.reachable m excluded := by
  have h := trimming_ordered stat
  refine Set.Subset.antisymm h.reachable_subset ?_
  rintro t ⟨ds, hds, rfl⟩
  have hfills := h.fills_mapped (Slot.mem_candidates_ordered stat) hds.fills
  rw [← h.slots] at hfills
  refine ⟨ds.map (Decision.mapped _ _), ⟨hfills, ?_⟩, ?_⟩
  · rw [h.ids_mapped]
    exact hds.allowed
  · rw [Part.totals, Part.totals, h.sums_mapped, h.label]

/-- A feasible build before pruning is matched by one after pruning. -/
theorem Part.Feasible.exists_pruned (hm : m.Mutual) (hcov : m.Covers part.slots)
    (hex : ∀ id ∈ excluded, id ∉ (part.prune m stat).rivalIds m)
    (hds : part.Feasible m excluded ds) :
    ∃ es, (part.prune m stat).Feasible m excluded es ∧
      Totals.AtLeast stat ((part.prune m stat).totals es) (part.totals ds) := by
  have htrim := trimming_prune m stat
  obtain ⟨es, hes, hle, hids⟩ := exchange_pruned m stat part.slots hds.fills
  rw [← htrim.slots] at hes hids
  refine ⟨es, ⟨hes, fun id hid => ?_, fun a ha b hb => ?_⟩, ?_⟩
  · rcases hids id hid with h | ⟨h, -⟩
    · exact hds.allowed.available id h
    · exact fun hidE => hex id hidE (Part.mem_rivalIds.mpr h)
  · -- What comes in is in conflict with no candidate, and all that is mounted are candidates.
    have hcand : ∀ id ∈ Decision.ids es, id ∈ m.candidates := by
      intro id hid
      obtain ⟨fs, hfs, rfl⟩ := htrim.fills (htrim.slots part ▸ hes)
      rw [htrim.ids_mapped] at hid
      exact hcov.mem_candidates hfs hid
    rcases hids a ha with h | ⟨-, hfree⟩
    · rcases hids b hb with h' | ⟨-, hfree⟩
      · exact hds.allowed.compatible a h b h'
      · exact fun hab =>
          ConflictMap.not_conflicts_of_not_live hfree (hcand a ha) (hm.comm hab)
    · exact ConflictMap.not_conflicts_of_not_live hfree (hcand b hb)
  · rw [Part.totals, Part.totals, htrim.label]
    exact Totals.AtLeast.add (Totals.AtLeast.refl _ _) hle

/-- **Pruning loses nothing**: if nothing is excluded that the pruning relies on, then the same
totals are the best of all feasible builds before and after. -/
theorem Part.isBest_prune_iff (hm : m.Mutual) (hcov : m.Covers part.slots)
    (hex : ∀ id ∈ excluded, id ∉ (part.prune m stat).rivalIds m) {t : Totals} :
    Totals.IsBest stat ((part.prune m stat).reachable m excluded) t ↔
      Totals.IsBest stat (part.reachable m excluded) t := by
  have hsub : (part.prune m stat).reachable m excluded ⊆ part.reachable m excluded :=
    (trimming_prune m stat).reachable_subset
  have hmatch : ∀ u ∈ part.reachable m excluded,
      ∃ v ∈ (part.prune m stat).reachable m excluded, Totals.AtLeast stat v u := by
    rintro u ⟨ds, hds, rfl⟩
    obtain ⟨es, hes, hle⟩ := hds.exists_pruned hm hcov hex
    exact ⟨_, Part.totals_mem_reachable hes, hle⟩
  constructor
  · exact fun h => h.of_subset hsub hmatch
  · intro h
    obtain ⟨v, hv, hle⟩ := hmatch t h.1
    have heq : t = v := (h.2 v (hsub hv)).antisymm hle
    exact ⟨heq ▸ hv, fun u hu => h.2 u (hsub hu)⟩

end Best

end Gunsmith
