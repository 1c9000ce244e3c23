/-
  Conflicts with an item that is no candidate.

  Leaving all conflicts between one item and any other out of the catalogue
  (`Provider.unopposed`) leaves no more than the declarations of the candidates
  different: the expansion is the same but for its labels
  (`CandidateTree.expansion_unopposed`).

  As long as the item is no candidate itself, nobody can choose it, and the conflicts
  among the candidates stay what they are (`Part.alike_unopposed`).  Two records alike in
  this way (`ConflictMap.Alike`) cannot be told apart by whatever asks about candidates
  only: so the finished trees are the same as well, again but for their labels
  (`CandidateTree.root_unopposed`).
-/
import Gunsmith.Proofs.Tree.Candidates
import Gunsmith.Proofs.Tree.Guard
import Gunsmith.Proofs.Tree.Relabelled

namespace Gunsmith

/-! ### Conflicts left out -/

/-- The catalogue with all conflicts between one item and any other left out. -/
def Provider.unopposed (p : Provider Id) (id : String) : Provider Id :=
  { p with
    properties := fun other => Except.map (fun found => { found with
      conflicts := if other = id then [] else found.conflicts.filter (· ≠ id) })
      (p.properties other) }

/-- The label with all conflicts between one item and any other left out. -/
def Label.unopposed (id : String) (label : Label) : Label :=
  { label with
    declared := if label.id = id then ∅ else .ofList (label.declared.toList.filter (· ≠ id)) }

/-- The tree with all conflicts between one item and any other left out of its labels. -/
def Part.unopposed (id : String) (part : Part) : Part :=
  part.relabelled (Label.unopposed id) fun site => site

/-- The slot with all conflicts between one item and any other left out of the labels below. -/
def Slot.unopposed (id : String) (s : Slot) : Slot :=
  s.relabelled (Label.unopposed id) fun site => site

/-- What becomes of an item, with the candidate changed. -/
def Verdict.map {α β : Type} (f : α → β) : Verdict α → Verdict β
  | .unavailable => .unavailable
  | .cyclic => .cyclic
  | .mounted part => .mounted (f part)

variable {id : String}

theorem relabelling_unopposed : Relabelling (Label.unopposed id) fun site => site where
  id_eq _ := rfl
  name_eq _ := rfl
  modifiers_eq _ := rfl
  address_eq _ := rfl
  pruned_eq _ := rfl

theorem Part.slots_unopposed (part : Part) :
    (part.unopposed id).slots = part.slots.map (Slot.unopposed id) :=
  slots_relabelled

theorem Part.label_unopposed (part : Part) :
    (part.unopposed id).label = part.label.unopposed id :=
  label_relabelled

theorem Part.id_unopposed (part : Part) : (part.unopposed id).id = part.id :=
  relabelling_unopposed.id part

theorem AllowedItem.label_unopposed (item : AllowedItem) (found : Properties) :
    (item.label found).unopposed id = item.label { found with
      conflicts := if item.id = id then [] else found.conflicts.filter (· ≠ id) } := by
  unfold AllowedItem.label Label.unopposed
  congr 1
  refine NameSet.ext_mem fun other => ?_
  dsimp only
  split_ifs
  · rfl
  · simp only [NameSet.mem_ofList, List.mem_filter, NameSet.mem_toList]

/-! ### Expansions -/

namespace Reading

variable {α β γ δ : Type}

/-- What is read first may be changed before it is used or after. -/
theorem bind_eq_map {x : Reading Id α} {y : Reading Id β} {f : α → β} {g : γ → δ}
    {ask : α → Reading Id γ} {ask' : β → Reading Id δ} (h : y = f <$> x)
    (hask : ∀ a, ask' (f a) = g <$> ask a) : (y >>= ask') = g <$> (x >>= ask) := by
  rw [h, bind_map_left, map_bind]
  exact bind_congr fun a _ => hask a

theorem ask_map (itemId : String) (f : α → β) (question : Except StoreError α) :
    ask (m := Id) itemId (Except.map f question) = f <$> ask (m := Id) itemId question := by
  cases question <;> rfl

theorem mapM_map {xs : List α} {f : β → γ} {ask : α → Reading Id β} {ask' : α → Reading Id γ}
    (h : ∀ x, ask' x = f <$> ask x) : xs.mapM ask' = List.map f <$> xs.mapM ask := by
  induction xs with
  | nil => rw [List.mapM_nil, List.mapM_nil, map_pure, List.map_nil]
  | cons x xs ih =>
    rw [List.mapM_cons, List.mapM_cons, h, ih]
    simp only [map_bind, bind_map_left, map_pure, List.map_cons]

end Reading

section Expansion

variable {p : Provider Id} {c : Constraints}

theorem consider_unopposed (chain : List Placement) (slotId : String) (item : AllowedItem) :
    consider (p.unopposed id) c chain slotId item =
      Verdict.map (Label.unopposed id) <$> consider p c chain slotId item := by
  unfold consider
  by_cases hex : c.Excludes item.id
  · rw [if_pos hex, if_pos hex]
    rfl
  rw [if_neg hex, if_neg hex, map_bind]
  refine bind_congr fun offers => ?_
  by_cases hbuy : c.levels.CanPurchase offers
  · rw [if_neg (not_not.mpr hbuy), if_neg (not_not.mpr hbuy)]
    by_cases hchain : ⟨item.id, slotId⟩ ∈ chain
    · rw [if_pos hchain, if_pos hchain]
      rfl
    · rw [if_neg hchain, if_neg hchain]
      refine Reading.bind_eq_map (Reading.ask_map item.id _ (p.properties item.id)) fun found => ?_
      rw [map_pure]
      exact congrArg (fun label => pure (Verdict.mounted label))
        (item.label_unopposed found).symm
  · rw [if_pos hbuy, if_pos hbuy]
    rfl

section Verdicts

variable {α β : Type} (f : α → β) (verdicts : List (String × Verdict α))

/-- Changing the candidates keeps the items that were kept out. -/
theorem cyclic_map :
    ((verdicts.map (Prod.map (fun name => name) (Verdict.map f))).filter fun (_, v) =>
        v.isCyclic).map Prod.fst =
      (verdicts.filter fun (_, v) => v.isCyclic).map Prod.fst := by
  rw [List.filter_map, List.map_map]
  congr 1
  refine List.filter_congr fun v _ => ?_
  obtain ⟨name, verdict⟩ := v
  cases verdict <;> rfl

theorem parts_map :
    (verdicts.map (Prod.map (fun name => name) (Verdict.map f))).filterMap (fun (_, v) => v.part?) =
      (verdicts.filterMap fun (_, v) => v.part?).map f := by
  rw [List.filterMap_map, List.map_filterMap]
  refine List.filterMap_congr fun v _ => ?_
  obtain ⟨name, verdict⟩ := v
  cases verdict <;> rfl

end Verdicts

/-- **The expansion without the conflicts** is the expansion, without them in its labels. -/
theorem expand_unopposed (depth : Nat) : ∀ (chain : List Placement) (address : List Nat)
    (label : Label), expand (p.unopposed id) c depth chain address (label.unopposed id) =
      Part.unopposed id <$> expand p c depth chain address label := by
  induction depth with
  | zero =>
    intro chain address label
    rw [expand, expand, map_bind]
    refine bind_congr fun rows => ?_
    rw [map_pure, Part.unopposed, Part.relabelled_eq]
    rfl
  | succ depth ih =>
    intro chain address label
    rw [expand, expand, map_bind]
    refine bind_congr fun rows => ?_
    -- Both read the same up to the properties of an attachment, which end up in its label.
    refine Reading.bind_eq_map (Reading.mapM_map (f := Slot.unopposed id) fun row => ?_)
      fun slots => ?_
    · rw [map_bind]
      refine bind_congr fun allowed => ?_
      refine Reading.bind_eq_map (Reading.mapM_map (f := Prod.map (fun name => name)
        (Verdict.map (Part.unopposed id))) fun item => ?_) fun verdicts => ?_
      · refine Reading.bind_eq_map (consider_unopposed ..) fun verdict => ?_
        cases verdict with
        | unavailable => rfl
        | cyclic => rfl
        | mounted label' =>
          refine Reading.bind_eq_map (ih ..) fun part => ?_
          rw [map_pure]
          rfl
      · rw [map_pure, cyclic_map, parts_map, Slot.unopposed, Slot.relabelled_eq]
        rfl
    · rw [map_pure, Part.unopposed, Part.relabelled_eq]
      rfl

end Expansion

/-! ### Records that are alike -/

namespace ConflictMap

/-- The records have the same candidates and the same conflicts among them. -/
structure Alike (m m' : ConflictMap) : Prop where
  candidates : m'.candidates = m.candidates
  conflicts : ∀ a ∈ m.candidates, ∀ b ∈ m.candidates, (m'.Conflicts a b ↔ m.Conflicts a b)

variable {m m' : ConflictMap} {part c : Part} {stat : Stat} {a : String}

/-- Everything at and below an item attached to a covered tree is a candidate of the record. -/
theorem Covers.of_attached (h : m.Covers part.slots) (hc : part.Attached c) :
    ∀ id ∈ c.ids, id ∈ m.candidates := by
  intro id hid
  obtain ⟨s, hs, d, hd, rfl | hdc⟩ := Part.attached_iff.mp hc
  · exact h s hs c hd id hid
  · exact h s hs d hd id (hdc.ids_subset hid)

namespace Alike

variable (h : m.Alike m')

include h

theorem live_iff (ha : a ∈ m.candidates) : m'.Live a ↔ m.Live a := by
  unfold Live
  rw [h.candidates]
  exact exists_congr fun b => and_congr_left fun hb => h.conflicts a ha b hb

theorem conflictFree (hcand : ∀ id ∈ c.ids, id ∈ m.candidates) :
    c.conflictFree m' = c.conflictFree m := by
  rw [Bool.eq_iff_iff, Part.conflictFree_iff, Part.conflictFree_iff]
  exact forall₂_congr fun id hid => not_congr (h.live_iff (hcand id hid))

/-- The same candidates are dropped by either record. -/
theorem prune (hcov : m.Covers part.slots) : part.prune m' stat = part.prune m stat := by
  induction part using Part.induct_slots with
  | step part ih =>
    rw [Part.prune_eq, Part.prune_eq]
    congr 1
    refine List.map_congr_left fun s hs => ?_
    -- The bounds know nothing of conflicts, and the candidates are conflict-free by both.
    have hmarks : s.removedMarks m' stat = s.removedMarks m stat := by
      unfold Slot.removedMarks
      congr 1
      refine List.map_congr_left fun c hc => ?_
      rw [Part.rating, Part.rating, h.conflictFree (hcov s hs c hc)]
    refine Slot.ext ?_ ?_
    · rw [Slot.site_prune, Slot.site_prune, hmarks]
    · rw [Slot.candidates_prune, Slot.candidates_prune, hmarks]
      congr 1
      exact List.map_congr_left fun c hc => ih s hs c hc fun t ht d hd id hid =>
        hcov s hs c hc id (Part.mem_ids_of_candidate ht hd hid)

theorem rivalIds (hcov : m.Covers part.slots) : part.rivalIds m' = part.rivalIds m := by
  unfold Part.rivalIds
  congr 1
  refine List.flatMap_congr fun s hs => ?_
  split_ifs
  · rfl
  · refine List.flatMap_congr fun c hc => ?_
    rw [h.conflictFree (hcov.of_attached ⟨s, hs, hc⟩)]

end Alike

end ConflictMap

theorem Label.mem_declared_unopposed {label : Label} {other : String} (hid : label.id ≠ id)
    (hother : other ≠ id) : other ∈ (label.unopposed id).declared ↔ other ∈ label.declared := by
  unfold unopposed
  dsimp only
  rw [if_neg hid, NameSet.mem_ofList, List.mem_filter, NameSet.mem_toList,
    and_iff_left (decide_eq_true hother)]

/-- What is attached to the tree without the conflicts is attached to the tree, without them. -/
theorem Part.exists_attached_unopposed {part : Part} {P : Part → Prop} :
    (∃ c, (part.unopposed id).Attached c ∧ P c) ↔ ∃ c, part.Attached c ∧ P (c.unopposed id) := by
  simp only [unopposed, attached_relabelled_iff, exists_exists_and_eq_and]

theorem Part.candidates_unopposed (part : Part) :
    (part.unopposed id).declarations.candidates = part.declarations.candidates := by
  refine NameSet.ext_mem fun a => ?_
  rw [mem_candidates_declarations, mem_candidates_declarations, exists_attached_unopposed]
  refine exists_congr fun c => and_congr_right fun _ => ?_
  rw [id_unopposed]

/-- **Conflicts with no candidate** make no difference among the candidates. -/
theorem Part.alike_unopposed {part : Part} (hid : id ∉ part.declarations.candidates) :
    part.declarations.symmetric.Alike (part.unopposed id).declarations.symmetric where
  candidates := part.candidates_unopposed
  conflicts a ha b hb := by
    have hne : ∀ other ∈ part.declarations.candidates, other ≠ id :=
      fun other hother heq => hid (heq ▸ hother)
    -- Neither of the two is the item, so one declares the other as before.
    have hdeclared : ∀ c : Part, ∀ x ∈ part.declarations.candidates,
        ∀ y ∈ part.declarations.candidates,
          ((c.unopposed id).id = x ∧ y ∈ (c.unopposed id).label.declared ↔
            c.id = x ∧ y ∈ c.label.declared) := by
      intro c x hx y hy
      rw [id_unopposed, label_unopposed]
      refine and_congr_right fun hcx => Label.mem_declared_unopposed ?_ (hne y hy)
      exact ne_of_eq_of_ne hcx (hne x hx)
    rw [conflicts_iff, conflicts_iff, exists_attached_unopposed]
    refine and_congr_right fun _ => exists_congr fun c => and_congr_right fun _ => ?_
    exact or_congr (hdeclared c a ha b hb) (hdeclared c b hb a ha)

/-! ### Trees without the conflicts -/

namespace CandidateTree

variable {p : Provider Id} {c : Constraints} {maxDepth : Nat} {stat : Stat} {part : Part}
  {excluded : NameSet}

/-- A weapon declares nothing, so its node stays what it is. -/
theorem rootLabel_unopposed (w : Weapon) : (rootLabel w).unopposed id = rootLabel w := by
  unfold rootLabel Label.unopposed
  dsimp only
  split_ifs <;> rfl

/-- **The expansion without the conflicts** of an item is the expansion, or fails as it does. -/
theorem expansion_unopposed (maxDepth : Nat) (weaponId : String) :
    expansion (p.unopposed id) maxDepth weaponId c =
      Part.unopposed id <$> expansion p maxDepth weaponId c := by
  unfold expansion
  cases c.validate with
  | error detail => rfl
  | ok _ =>
    dsimp only
    rw [map_bind]
    refine bind_congr fun w => ?_
    rw [← expand_unopposed, rootLabel_unopposed]

theorem root_unopposed (maxDepth : Nat) (stat : Stat) (c : Constraints)
    (hid : id ∉ part.declarations.candidates) :
    (ofExpansion maxDepth stat c (part.unopposed id)).root =
      (ofExpansion maxDepth stat c part).root.unopposed id := by
  show ((part.unopposed id).ordered stat).prune (part.unopposed id).declarations.symmetric stat =
    ((part.ordered stat).prune part.declarations.symmetric stat).unopposed id
  rw [Part.unopposed, relabelling_unopposed.ordered, relabelling_unopposed.prune,
    ← (Part.alike_unopposed hid).prune (covers_trimmed (trimming_ordered stat) part)]
  rfl

/-- Without the conflicts, the pruning relies on the same items. -/
theorem rivalIds_unopposed (maxDepth : Nat) (stat : Stat) (c : Constraints)
    (hid : id ∉ part.declarations.candidates) :
    (ofExpansion maxDepth stat c (part.unopposed id)).rivalIds =
      (ofExpansion maxDepth stat c part).rivalIds := by
  unfold rivalIds
  rw [root_unopposed maxDepth stat c hid]
  refine relabelling_unopposed.rivalIds.trans ?_
  exact (Part.alike_unopposed hid).rivalIds (covers_ofExpansion maxDepth stat c part)

end CandidateTree

end Gunsmith
