/-
  Choosing anew among the candidates.

  Ordering and pruning are the same thing to the tables: the candidates for every slot are looked
  up, some of them are kept in some order, and the ids of the others are noted
  (`Arena.Chooses`).  No item is touched, so what is chosen for one slot does not depend on what
  was chosen for another.  A choice that only ever drops candidates (`Choice.OnlyDrops`) leaves the
  tables alone where it drops none.

  To the tree they are functions on items and slots.  A choice realizes such functions if it picks
  from entries that show and rate the candidates what the functions pick from the candidates
  (`Choice.Realizes`).  The tables then hold the tree that the functions make of it
  (`Part.Held.chosen`).
-/
import Gunsmith.Proofs.Arena.Held
import Gunsmith.Proofs.Arena.Mirroring
import Gunsmith.Proofs.Arena.Traversal

namespace Gunsmith

/-! ### Lists side by side -/

section Forall₂

variable {α β : Type} {R : α → β → Prop} {xs : List α} {ys : List β}

/-- Lists side by side are the two sides of a list of pairs. -/
theorem exists_pairs_of_forall₂ (h : List.Forall₂ R xs ys) :
    ∃ zs : List (α × β), zs.map Prod.fst = xs ∧ zs.map Prod.snd = ys ∧ ∀ z ∈ zs, R z.1 z.2 := by
  refine ⟨xs.zip ys, List.map_fst_zip h.length_eq.le, List.map_snd_zip h.length_eq.ge, ?_⟩
  rintro ⟨x, y⟩ hz
  exact List.forall₂_zip h hz

theorem forall₂_of_pairs {zs : List (α × β)} (h : ∀ z ∈ zs, R z.1 z.2) :
    List.Forall₂ R (zs.map Prod.fst) (zs.map Prod.snd) := by
  rw [List.forall₂_map_left_iff, List.forall₂_map_right_iff, List.forall₂_same]
  exact h

theorem map_eq_map_of_forall₂ {γ : Type} {f : α → γ} {g : β → γ} (h : List.Forall₂ R xs ys)
    (hfg : ∀ x y, R x y → f x = g y) : xs.map f = ys.map g := by
  rw [← List.forall₂_eq_eq_eq, List.forall₂_map_left_iff, List.forall₂_map_right_iff]
  exact h.imp hfg

/-- Lists that are sorted alike stay side by side. -/
theorem forall₂_mergeSort {le : α → α → Bool} {le' : β → β → Bool} (h : List.Forall₂ R xs ys)
    (hle : ∀ x x' y y', R x y → R x' y' → le x x' = le' y y') :
    List.Forall₂ R (xs.mergeSort le) (ys.mergeSort le') := by
  obtain ⟨zs, rfl, rfl, hzs⟩ := exists_pairs_of_forall₂ h
  have hfst : (zs.map Prod.fst).mergeSort le =
      (zs.mergeSort fun z z' => le z.1 z'.1).map Prod.fst := by
    rw [List.map_mergeSort (s := le)]
    exact fun _ _ _ _ => rfl
  have hsnd : (zs.map Prod.snd).mergeSort le' =
      (zs.mergeSort fun z z' => le z.1 z'.1).map Prod.snd :=
    (List.map_mergeSort fun z hz z' hz' => hle _ _ _ _ (hzs z hz) (hzs z' hz')).symm
  rw [hfst, hsnd]
  exact forall₂_of_pairs fun z hz => hzs z (List.mem_mergeSort.mp hz)

theorem forall₂_selectMarked (h : List.Forall₂ R xs ys) (wanted : Bool) (marks : List Bool) :
    List.Forall₂ R (selectMarked wanted xs marks) (selectMarked wanted ys marks) := by
  obtain ⟨zs, rfl, rfl, hzs⟩ := exists_pairs_of_forall₂ h
  rw [selectMarked_map, selectMarked_map]
  exact forall₂_of_pairs fun z hz => hzs z ((selectMarked_sublist _ _).subset hz)

end Forall₂

/-! ### Choosing in the tables -/

/-- From `a` to `b`, the candidates for the slots in `S` have been chosen anew. -/
structure Arena.Chooses (choice : Choice) (S : Set Nat) (a b : Arena) : Prop where
  items : b.items = a.items
  truncated : b.truncated = a.truncated
  chosen : ∀ s ∈ S, ∀ slot, a.slots[s]? = some slot → ∃ candidates,
    candidates.map Prod.fst = slot.candidates ∧
    (∀ x ∈ candidates, a.items[x.1]? = some x.2) ∧
    b.slots[s]? = some { slot with
      candidates := (choice candidates).1.map Prod.fst
      pruned := slot.pruned ++ (choice candidates).2 }
  kept : ∀ s, s ∉ S → b.slots[s]? = a.slots[s]?

namespace Arena.Chooses

variable {choice : Choice} {S S' : Set Nat} {a b c : Arena}

theorem refl (a : Arena) : a.Chooses choice ∅ a :=
  ⟨rfl, rfl, nofun, fun _ _ => rfl⟩

/-- What is chosen for some slots does not depend on what was chosen for others. -/
theorem trans (h : a.Chooses choice S b) (h' : b.Chooses choice S' c) (hdisjoint : Disjoint S S') :
    a.Chooses choice (S ∪ S') c where
  items := h'.items.trans h.items
  truncated := h'.truncated.trans h.truncated
  chosen s hs slot hslot := by
    rcases hs with hs | hs
    · rw [h'.kept s (Set.disjoint_left.mp hdisjoint hs)]
      exact h.chosen s hs slot hslot
    · rw [← h.kept s (Set.disjoint_right.mp hdisjoint hs)] at hslot
      rw [← h.items]
      exact h'.chosen s hs slot hslot
  kept s hs := by
    rw [h'.kept s fun hs' => hs (Or.inr hs'), h.kept s fun hs' => hs (Or.inl hs')]

theorem univ (h : a.Chooses choice S b) (hS : ∀ s < a.slots.length, s ∈ S) :
    a.Chooses choice Set.univ b where
  items := h.items
  truncated := h.truncated
  chosen s _ slot hslot := h.chosen s (hS s (List.getElem?_eq_some_iff.mp hslot).1) slot hslot
  kept s hs := absurd (Set.mem_univ s) hs

end Arena.Chooses

/-- Where no candidate is dropped, the candidates are left as they are. -/
def Choice.OnlyDrops (choice : Choice) : Prop :=
  ∀ candidates, (choice candidates).2 = [] → (choice candidates).1 = candidates

theorem Arena.modifySlot_eq_self {a : Arena} {s : Nat} {slot : SlotNode} {f : SlotNode → SlotNode}
    (hslot : a.slots[s]? = some slot) (hf : f slot = slot) : a.modifySlot s f = a := by
  have hslots : a.slots.modify s f = a.slots := by
    refine List.ext_getElem? fun t => ?_
    rw [List.getElem?_modify]
    by_cases hst : s = t
    · simp [← hst, hslot, hf]
    · simp [hst]
  rw [Arena.modifySlot, hslots]

section Reselect

open Growing

variable {choice : Choice} (hsub : ∀ candidates, (choice candidates).1.Subperm candidates)
  {g : Growth}

include hsub

theorem succeeds_reselect (hwf : g.arena.WellFormed) {s : Nat} (hs : s < g.arena.slots.length) :
    Succeeds (reselect choice s) g fun n g' => g.arena.Chooses choice {s} g'.arena ∧
      (choice.OnlyDrops → n = 0 → g'.arena = g.arena) := by
  have hslot := List.getElem?_eq_getElem hs
  -- Every candidate is found in the table, since the tables are in order.
  have hlookup : ∀ i ∈ g.arena.slots[s].candidates, ∃ x,
      g.arena.items[i]?.map (fun node => (i, node)) = some x ∧
        (x.1 = i ∧ g.arena.items[x.1]? = some x.2) := by
    intro i hi
    rw [← Arena.candidatesOf_of_getElem? hslot] at hi
    have hnode := List.getElem?_eq_getElem (hwf.lt_of_mem_candidatesOf hi)
    exact ⟨_, by rw [hnode, Option.map_some], rfl, hnode⟩
  obtain ⟨candidates, hcandidates, hall⟩ := exists_mapM hlookup
  have hfst : candidates.map Prod.fst = g.arena.slots[s].candidates := by
    rw [← List.forall₂_eq_eq_eq, List.forall₂_map_left_iff]
    exact (hall.imp fun _ _ h => h.1).flip
  have hitems : ∀ x ∈ candidates, g.arena.items[x.1]? = some x.2 := by
    intro x hx
    obtain ⟨i, -, hi⟩ := exists_of_forall₂ hall hx
    exact hi.2
  have hpermitted : (Edit.select s ((choice candidates).1.map Prod.fst)
      (choice candidates).2).Permitted g.arena := by
    refine ⟨hs, ?_⟩
    rw [Arena.candidatesOf_of_getElem? hslot, ← hfst]
    exact subperm_map (hsub candidates) Prod.fst
  unfold reselect
  apply (succeeds_answer (fun a => a.slots[s]?) hslot).bind
  rintro _ _ - ⟨rfl, rfl⟩
  apply (succeeds_answer (fun a => List.mapM
    (fun i => a.items[i]?.map fun node => (i, node)) _) hcandidates).bind
  rintro candidates g - ⟨rfl, rfl⟩
  apply (succeeds_edit hpermitted).bind
  rintro _ _ - rfl
  refine Succeeds.pure ⟨⟨rfl, rfl, ?_, ?_⟩, fun hdrops hn => ?_⟩
  · rintro _ rfl slot hslot'
    obtain rfl := Option.some.inj (hslot.symm.trans hslot')
    refine ⟨candidates, hfst, hitems, ?_⟩
    simp [Growth.edited, Arena.apply, Arena.modifySlot, hslot]
  · intro t ht
    have hne : s ≠ t := fun h => ht h.symm
    simp [Growth.edited, Arena.apply, Arena.modifySlot, hne]
  · have hnone : (choice candidates).2 = [] := List.length_eq_zero_iff.mp hn
    refine Arena.modifySlot_eq_self hslot ?_
    rw [hnone, hdrops candidates hnone, hfst, List.append_nil]

/-- Choosing for some slots, one after another. -/
theorem succeeds_reselect_each {ss : List Nat} (hnodup : ss.Nodup)
    (hss : ∀ s ∈ ss, s < g.arena.slots.length) (hwf : g.arena.WellFormed) :
    Succeeds (ss.mapM (reselect choice)) g fun ns g' =>
      g.arena.Chooses choice {s | s ∈ ss} g'.arena ∧
        (choice.OnlyDrops → total ns = 0 → g'.arena = g.arena) := by
  induction ss generalizing g with
  | nil =>
    have hempty : {s | s ∈ ([] : List Nat)} = ∅ := by simp
    rw [hempty]
    exact Succeeds.pure ⟨Arena.Chooses.refl g.arena, fun _ _ => rfl⟩
  | cons s ss ih =>
    obtain ⟨hs, hnodup⟩ := List.nodup_cons.mp hnodup
    rw [List.mapM_cons]
    apply (succeeds_reselect hsub hwf (hss s List.mem_cons_self)).bind
    rintro n g' hlater ⟨hchooses, hsame⟩
    apply (ih hnodup ?_ (hlater.wellFormed hwf)).bind
    · rintro ns g'' _ ⟨hchooses', hsame'⟩
      have hset : {t | t ∈ s :: ss} = {s} ∪ {t | t ∈ ss} := by
        ext t
        simp
      rw [hset]
      refine Succeeds.pure ⟨hchooses.trans hchooses' (Set.disjoint_singleton_left.mpr hs), ?_⟩
      intro hdrops hsum
      rw [total_cons] at hsum
      exact (hsame' hdrops (Nat.eq_zero_of_add_eq_zero_left hsum)).trans
        (hsame hdrops (Nat.eq_zero_of_add_eq_zero_right hsum))
    · intro t ht
      exact lt_of_lt_of_le (hss t (List.mem_cons_of_mem s ht)) hlater.length_slots

/-- **Choosing for every slot.** -/
theorem succeeds_reselectAll (hwf : g.arena.WellFormed) :
    Succeeds (reselectAll choice) g fun n g' => g.arena.Chooses choice Set.univ g'.arena ∧
      (choice.OnlyDrops → n = 0 → g'.arena = g.arena) := by
  unfold reselectAll
  apply (succeeds_answer (fun a => some (List.range a.slots.length)) rfl).bind
  rintro _ g - ⟨rfl, rfl⟩
  apply (succeeds_reselect_each hsub List.nodup_range (fun s => List.mem_range.mp) hwf).bind
  rintro ns g' - ⟨hchooses, hsame⟩
  exact Succeeds.pure ⟨hchooses.univ fun s => List.mem_range.mpr, hsame⟩

end Reselect

/-! ### Choosing in the tree -/

/-- The choice picks from entries what the functions pick from the candidates that they show and
rate. -/
structure Choice.Realizes (choice : Choice) (m : ConflictMap) (f : Part → Part) (g : Slot → Slot) :
    Prop where
  trimming : Trimming f g
  subperm : ∀ candidates, (choice candidates).1.Subperm candidates
  picks : ∀ {R : Part → Nat × ItemNode → Prop} {slot : Slot} {candidates : List (Nat × ItemNode)},
    (∀ c x, R c x → x.2.Shows c.label ∧ x.2.rating = c.rating m) →
    List.Forall₂ R slot.candidates candidates → ∃ kept, kept ⊆ slot.candidates ∧
      (g slot).candidates = kept.map f ∧ List.Forall₂ R kept (choice candidates).1 ∧
      (g slot).site = { slot.site with pruned := slot.site.pruned ++ (choice candidates).2 }

section Realizes

variable {choice : Choice} {m : ConflictMap} {f : Part → Part} {g : Slot → Slot} {a b : Arena}
  {v : View} {part : Part} {i : Nat}

theorem Part.Held.entry {node : ItemNode} (h : part.Held (a.rated m) i)
    (hnode : a.items[i]? = some node) : node.Shows part.label ∧ node.rating = part.rating m := by
  obtain ⟨node', ⟨hnode', hrating⟩, hshows, -⟩ := Part.held_iff.mp h
  obtain rfl := Option.some.inj (hnode.symm.trans hnode')
  exact ⟨hshows, hrating⟩

/-- **After a choice the tables hold the trimmed tree.** -/
theorem Part.Held.chosen (hchoice : choice.Realizes m f g) (hab : a.Chooses choice Set.univ b)
    (hitem : ∀ part j node, b.items[j]? = some node → node.rating = part.rating m →
      v.item (f part) j node)
    (hslot : ∀ slot t node, b.slots[t]? = some node → node.bounds = slot.bounds →
      v.slot (g slot) t node)
    (h : part.Held (a.rated m) i) : (f part).Held v i := by
  induction part using Part.induct_slots generalizing i with
  | step part ih =>
    obtain ⟨node, ⟨hnode, hrating⟩, hshows, hslots⟩ := Part.held_iff.mp h
    rw [← hab.items] at hnode
    refine Part.held_iff.mpr ⟨node, hitem part i node hnode hrating, ?_, ?_⟩
    · rw [hchoice.trimming.label]
      exact hshows
    rw [hchoice.trimming.slots, List.forall₂_map_left_iff]
    refine forall₂_imp_of_mem hslots fun slot hmem s hs => ?_
    obtain ⟨slotNode, ⟨hslotNode, hbounds⟩, hshowsSlot, hcandidates⟩ := Slot.held_iff.mp hs
    obtain ⟨candidates, hfst, hitems, hchosen⟩ := hab.chosen s (Set.mem_univ s) slotNode hslotNode
    -- What is chosen from are the entries beside the candidates, so the same are picked from both.
    have hbeside : List.Forall₂ (fun x (c : Part) => c.Held (a.rated m) x.1 ∧
        a.items[x.1]? = some x.2) candidates slot.candidates := by
      rw [← hfst, List.forall₂_map_right_iff] at hcandidates
      exact forall₂_imp_of_mem hcandidates.flip fun x hx c hc => ⟨hc, hitems x hx⟩
    obtain ⟨kept, hsubset, hkept, hpicked, hsite⟩ := hchoice.picks
      (R := fun c x => c.Held (a.rated m) x.1 ∧ a.items[x.1]? = some x.2)
      (fun c x hx => hx.1.entry hx.2) hbeside.flip
    refine Slot.held_iff.mpr ⟨_, hslot slot s _ hchosen hbounds, ?_, ?_⟩
    · rw [hsite]
      refine ⟨hshowsSlot.id, hshowsSlot.name, hshowsSlot.cyclic, ?_⟩
      rw [hshowsSlot.pruned]
    · rw [hkept, List.forall₂_map_left_iff, List.forall₂_map_right_iff]
      exact forall₂_imp_of_mem hpicked fun c hc x hx => ih slot hmem c (hsubset hc) hx.1

end Realizes

/-! ### Ordering and pruning -/

section Choices

variable {m : ConflictMap} {stat : Stat}

theorem rating_ordered (m : ConflictMap) (stat : Stat) (part : Part) :
    (part.ordered stat).rating m = part.rating m :=
  (trimming_ordered stat).rating (Slot.mem_candidates_ordered stat) m part

theorem bounds_ordered (stat : Stat) (slot : Slot) : (slot.ordered stat).bounds = slot.bounds :=
  (trimming_ordered stat).bounds_slot (Slot.mem_candidates_ordered stat) slot

theorem precedes_ordered (stat : Stat) (c d : Part) :
    (c.ordered stat).Precedes stat (d.ordered stat) ↔ c.Precedes stat d := by
  have hbounds : ∀ part : Part, (part.ordered stat).bounds = part.bounds := fun part =>
    congrArg Rating.bounds (rating_ordered .empty stat part)
  unfold Part.Precedes
  simp only [hbounds, (trimming_ordered stat).label, (trimming_ordered stat).id]

/-- Entries precede one another as the candidates do that they show and rate. -/
theorem precedes_entry {c d : Part} {node node' : ItemNode}
    (h : node.Shows c.label ∧ node.rating = c.rating m)
    (h' : node'.Shows d.label ∧ node'.rating = d.rating m) :
    c.Precedes stat d ↔ node.Precedes stat node' := by
  have hbounds : node.bounds = c.bounds := congrArg Rating.bounds h.2
  have hbounds' : node'.bounds = d.bounds := congrArg Rating.bounds h'.2
  unfold Part.Precedes ItemNode.Precedes
  rw [hbounds, hbounds', h.1.modifiers, h'.1.modifiers, h.1.id, h'.1.id]
  exact Iff.rfl

/-- Ordering the candidates in the tables orders those in the tree. -/
theorem realizes_inOrder (m : ConflictMap) (stat : Stat) :
    (Choice.inOrder stat).Realizes m (Part.ordered stat) (Slot.ordered stat) where
  trimming := trimming_ordered stat
  subperm candidates := (List.mergeSort_perm _ _).subperm
  picks {R slot candidates} hR hcandidates := by
    refine ⟨slot.candidates.mergeSort fun c d => decide (c.Precedes stat d),
      (List.mergeSort_perm _ _).subset, ?_, ?_, ?_⟩
    · rw [Slot.ordered_eq]
      exact (List.map_mergeSort fun c _ d _ =>
        decide_eq_decide.mpr (precedes_ordered stat c d).symm).symm
    · exact forall₂_mergeSort hcandidates fun c d x y hx hy =>
        decide_eq_decide.mpr (precedes_entry (hR c x hx) (hR d y hy))
    · rw [Slot.ordered_eq]
      exact congrArg (fun pruned => { slot.site with pruned := pruned })
        (List.append_nil slot.site.pruned).symm

/-- Dropping candidates in the tables drops those in the tree. -/
theorem realizes_unremoved (m : ConflictMap) (stat : Stat) :
    (Choice.unremoved stat).Realizes m (Part.prune m stat) (Slot.prune m stat) where
  trimming := trimming_prune m stat
  subperm candidates := (selectMarked_sublist _ _).subperm
  picks {R slot candidates} hR hcandidates := by
    have hmarks : slot.removedMarks m stat =
        Rating.removed stat (candidates.map fun x => x.2.rating) := by
      rw [Slot.removedMarks, map_eq_map_of_forall₂ hcandidates fun c x hx => (hR c x hx).2.symm]
    refine ⟨selectMarked false slot.candidates (slot.removedMarks m stat),
      (selectMarked_sublist _ _).subset, ?_, ?_, ?_⟩
    · rw [Slot.candidates_prune, selectMarked_map]
    · rw [hmarks]
      exact forall₂_selectMarked hcandidates false _
    · have hids := map_eq_map_of_forall₂ (f := Part.id) (g := fun x : Nat × ItemNode => x.2.id)
        (forall₂_selectMarked hcandidates true (slot.removedMarks m stat))
        fun c x hx => (hR c x hx).1.id.symm
      rw [Slot.site_prune, hids, hmarks]
      rfl

theorem onlyDrops_unremoved (stat : Stat) : (Choice.unremoved stat).OnlyDrops := by
  intro candidates hnone
  unfold Choice.unremoved at hnone ⊢
  have hlength : candidates.length =
      (Rating.removed stat (candidates.map fun c => c.2.rating)).length := by
    rw [Rating.removed, List.length_map, List.length_zipIdx, List.length_map]
  -- Kept and dropped ones together are all, so if none is dropped then as many are kept.
  have hperm := perm_selectMarked hlength
  rw [List.map_eq_nil_iff.mp hnone, List.append_nil] at hperm
  exact (selectMarked_sublist _ _).eq_of_length hperm.length_eq

end Choices

end Gunsmith
