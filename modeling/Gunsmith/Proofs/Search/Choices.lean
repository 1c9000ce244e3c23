/-
  The choices that a search makes.

  A search returns records, which name the slots and the items that they are about.
  `choices` are the decisions behind these records, about the slots and the items of the
  tree themselves: the decisions of the first best way to go on, where the slots below a
  conflict-free item are decided apart from the others.

  That a search makes these choices does not hang on names (`answer_relabelled`): however the
  slots of a tree are named, what is recorded are the same decisions.  Since slots may be
  given names that are all different, the records can be made to tell all slots apart.

  The choices are those of the plain recursion (`choices_perm_plain`): what is decided
  apart might as well be decided last in one list, since the two lists that arise are
  apart.  So a search does what the plain recursion does (`search_follows_plain`), and
  only the order of the records may differ.
-/
import Gunsmith.Proofs.Search.Optimality
import Gunsmith.Proofs.Search.Plain
import Gunsmith.Proofs.Tree.Relabelled

namespace Gunsmith

open Decision

/-! ### Other names for slots -/

section Renamed

variable (names : Site → String)

/-- A slot with another name. -/
def Site.renamed (site : Site) : Site := { site with name := names site }

/-- The tree below an item with other names for its slots. -/
def Part.renamed : Part → Part :=
  Part.fold Part.mk fun site candidates => Slot.mk { site with name := names site } candidates

/-- The tree with other names for its slots. -/
def CandidateTree.renamed (tree : CandidateTree) : CandidateTree :=
  { tree with root := tree.root.renamed names }

/-- The selection that records a decision, with another name for the slot. -/
def Decision.selectionAs (d : Decision) : Selection :=
  { d.selection with slotName := names d.slot.site }

theorem Part.renamed_eq_relabelled (part : Part) :
    part.renamed names = part.relabelled (fun label => label) (Site.renamed names) := rfl

variable {names}

theorem relabelling_renamed : Relabelling (fun label => label) (Site.renamed names) where
  id_eq _ := rfl
  name_eq _ := rfl
  modifiers_eq _ := rfl
  address_eq _ := rfl
  pruned_eq _ := rfl

end Renamed

/-! ### Choices -/

section Choices

variable (m : ConflictMap) (stat : Stat)

/-- The decisions that a search makes about some slots and all slots that these decisions open, while
some items are excluded: the slots below a conflict-free item are decided apart. -/
def choices (slots : List Slot) (excluded : NameSet) : List Decision :=
  match slots with
  | [] => []
  | slot :: rest =>
    winner stat (⟨slot, none⟩ :: choices rest excluded) <|
      (slot.available excluded).attach.map fun c =>
        ⟨slot, some c.val⟩ ::
          if c.val.conflictFree m then choices c.val.slots excluded ++ choices rest excluded
          else choices (rest ++ c.val.slots)
            (excluded.insertAll (m.conflictsOf c.val.id).toList)
termination_by Slot.totalCount slots
decreasing_by
  · simp only [Slot.totalCount_cons, Slot.slotCount_eq]
    omega
  all_goals
    have hc := Part.slotCount_le_of_mem (List.mem_of_mem_filter c.property)
    simp only [Slot.totalCount_cons, Slot.totalCount_append, Slot.slotCount_eq,
      Part.slotCount_eq] at hc ⊢
    omega

/-- The decisions once a candidate is put into a slot. -/
def choicesBelow (c : Part) (rest : List Slot) (excluded : NameSet) : List Decision :=
  if c.conflictFree m then choices m stat c.slots excluded ++ choices m stat rest excluded
  else choices m stat (rest ++ c.slots) (excluded.insertAll (m.conflictsOf c.id).toList)

variable {m stat} {names : Site → String} {slot : Slot} {rest : List Slot} {excluded : NameSet}
  {c : Part} {ds es : List Decision}

theorem choices_nil : choices m stat [] excluded = [] := by
  rw [choices]

theorem choices_cons :
    choices m stat (slot :: rest) excluded =
      winner stat (⟨slot, none⟩ :: choices m stat rest excluded)
        ((slot.available excluded).map fun c =>
          ⟨slot, some c⟩ :: choicesBelow m stat c rest excluded) := by
  rw [choices]
  congr 1
  exact List.attach_map_val (f := fun c : Part => (⟨slot, some c⟩ : Decision) ::
    choicesBelow m stat c rest excluded)

/-! ### What is recorded -/

/-- The solution that records some decisions, with other names for the slots. -/
def Solution.recording (names : Site → String) (ds : List Decision) : Solution :=
  ⟨Decision.sums ds, ds.map (Decision.selectionAs names)⟩

section Recording

variable {f : Label → Label} (h : Relabelling f (Site.renamed names))

include h

theorem Slot.select_relabelled (part : Option Part) :
    (slot.relabelled f (Site.renamed names)).select
        (part.map (Part.relabelled f (Site.renamed names))) =
      Decision.selectionAs names ⟨slot, part⟩ := by
  unfold Slot.select
  rw [Slot.site_relabelled, Option.map_map, Option.map_map]
  cases part with
  | none => rfl
  | some c =>
    simp only [Option.map_some, Function.comp_apply, h.id, Part.label_relabelled, h.name_eq]
    rfl

namespace Solution

omit h in
theorem ext_parts {a b : Solution} (hsums : a.sums = b.sums)
    (hselections : a.selections = b.selections) : a = b := by
  cases a
  cases b
  congr

theorem recording_skip :
    prepend ((slot.relabelled f (Site.renamed names)).select none) 0 [recording names ds] =
      recording names (⟨slot, none⟩ :: ds) := by
  refine ext_parts ?_ ?_
  · rw [sums_prepend_one, zero_add]
    rfl
  · rw [selections_prepend_one]
    exact congrArg (· :: ds.map (Decision.selectionAs names)) (Slot.select_relabelled h none)

theorem recording_mount :
    prepend ((slot.relabelled f (Site.renamed names)).select
        (some (c.relabelled f (Site.renamed names)))) c.label.modifiers [recording names ds] =
      recording names (⟨slot, some c⟩ :: ds) := by
  refine ext_parts ?_ ?_
  · show _ = Decision.sums (⟨slot, some c⟩ :: ds)
    rw [sums_prepend_one, Decision.sums_cons_some]
    rfl
  · rw [selections_prepend_one]
    exact congrArg (· :: ds.map (Decision.selectionAs names)) (Slot.select_relabelled h (some c))

theorem recording_mount_apart :
    prepend ((slot.relabelled f (Site.renamed names)).select
        (some (c.relabelled f (Site.renamed names)))) 0
        [SearchContext.withOwn (c.relabelled f (Site.renamed names)) (recording names ds),
          recording names es] =
      recording names (⟨slot, some c⟩ :: (ds ++ es)) := by
  refine ext_parts ?_ ?_
  · show _ = Decision.sums (⟨slot, some c⟩ :: (ds ++ es))
    rw [sums_prepend_withOwn, Part.label_relabelled, h.modifiers_eq, Decision.sums_cons_some,
      Decision.sums_append, add_assoc]
    rfl
  · rw [selections_prepend_withOwn]
    show _ = _ :: (ds ++ es).map (Decision.selectionAs names)
    rw [List.map_append]
    exact congrArg (· :: _) (Slot.select_relabelled h (some c))

end Solution

/-- Whichever candidates are tried: if their choices record certain ways, then the winner is
recorded. -/
theorem answerAmong_relabelled {option : Part → List Decision} (cs : List Part)
    (hoption : ∀ c ∈ cs, answerChoice m stat (slot.relabelled f (Site.renamed names))
      (c.relabelled f (Site.renamed names)) (rest.map (Slot.relabelled f (Site.renamed names)))
      excluded = .recording names (option c))
    (best : List Decision) :
    answerAmong m stat (slot.relabelled f (Site.renamed names))
        (cs.map (Part.relabelled f (Site.renamed names)))
        (rest.map (Slot.relabelled f (Site.renamed names))) excluded (.recording names best) =
      .recording names
        (winner stat best ((cs.filter fun c => c.id ∉ excluded).map option)) := by
  induction cs generalizing best with
  | nil =>
    rw [List.map_nil, answerAmong]
    rfl
  | cons c cs ih =>
    have ih := fun best => ih (fun d hd => hoption d (List.mem_cons_of_mem _ hd)) best
    rw [List.map_cons, answerAmong, h.id]
    split_ifs with hex
    · rw [List.filter_cons_of_neg (by simpa using hex)]
      exact ih best
    · rw [List.filter_cons_of_pos (by simpa using hex), List.map_cons, winner_cons,
        hoption c List.mem_cons_self]
      dsimp only
      rw [← ih]
      congr 1
      exact (apply_ite (Solution.recording names) _ _ _).symm

/-- **The records are those of the choices**, whatever the slots are called and whatever else is
known of the items. -/
theorem answer_relabelled (slots : List Slot) : ∀ excluded,
    answer m stat (slots.map (Slot.relabelled f (Site.renamed names))) excluded =
      .recording names (choices m stat slots excluded) := by
  induction slots using Slot.induct_work with
  | nil =>
    intro excluded
    rw [List.map_nil, answer_nil, choices_nil]
    rfl
  | cons slot rest ihr ihc =>
    intro excluded
    rw [List.map_cons, answer_cons, choices_cons, Slot.candidates_relabelled, ihr,
      Solution.recording_skip h]
    refine answerAmong_relabelled h slot.candidates (fun c hc => ?_) _
    unfold choicesBelow
    by_cases hfree : c.conflictFree m = true
    · rw [if_pos hfree, answerChoice_of_free (h.conflictFree.trans hfree),
        Part.slots_relabelled, (ihc c hc).1, ihr, Solution.recording_mount_apart h]
    · have hfree' : ¬ (c.relabelled f (Site.renamed names)).conflictFree m = true := by
        rw [h.conflictFree]
        exact hfree
      rw [if_neg hfree, answerChoice_of_not_free hfree', Part.slots_relabelled,
        ← List.map_append, (ihc c hc).2, h.id, Part.label_relabelled, h.modifiers_eq,
        Solution.recording_mount h]

end Recording

/-! ### The choices of the plain recursion -/

/-- **Deciding apart changes no choice**: the choices are the decisions of the plain recursion. -/
theorem choices_perm_plain (hm : m.Mutual) (slots : List Slot) : m.Covers slots → ∀ excluded,
    (choices m stat slots excluded).Perm (plain m stat slots excluded) := by
  induction slots using Slot.induct_work with
  | nil =>
    intro _ excluded
    rw [choices_nil, plain_nil]
  | cons slot rest ihr ihc =>
    intro hcov excluded
    have hskip := ihr hcov.tail excluded
    have hoption : ∀ c ∈ slot.candidates,
        (choicesBelow m stat c rest excluded).Perm
          (plain m stat (rest ++ c.slots)
            (excluded.insertAll (m.conflictsOf c.id).toList)) := by
      intro c hc
      unfold choicesBelow
      split_ifs with hfree
      · -- Nothing that the item is in conflict with is offered, here or there.
        have hoffered : ∀ ss, m.Covers ss → ∀ id ∈ Slot.offered ss, id ∈ m.candidates := by
          intro ss hss id hid
          obtain ⟨s, hs, d, hd, hid⟩ := Slot.mem_offered.mp hid
          exact hss s hs d hd id hid
        have hlive := Part.conflictFree_iff.mp hfree
        have hapart : Apart m c.slots rest := by
          intro a ha b hb
          obtain ⟨s, hs, d, hd, ha⟩ := Slot.mem_offered.mp ha
          exact ConflictMap.not_conflicts_of_not_live
            (hlive a (Part.mem_ids_of_candidate hs hd ha)) (hoffered rest hcov.tail b hb)
        have hexcluded : plain m stat (rest ++ c.slots)
            (excluded.insertAll (m.conflictsOf c.id).toList) =
              plain m stat (rest ++ c.slots) excluded := by
          refine plain_insertAll fun a ha => ?_
          exact ConflictMap.not_conflicts_of_not_live (hlive c.id c.id_mem_ids)
            (hoffered _ (hcov.tail.append (hcov.below hc)) a ha)
        rw [hexcluded]
        have hboth := ((ihc c hc).1 (hcov.below hc) excluded).append hskip
        exact hboth.trans (plain_interleave hm (rest ++ c.slots)
          (Interleave.append rest c.slots).symm hapart excluded).symm
      · exact (ihc c hc).2 (hcov.tail.append (hcov.below hc)) _
    -- Ways that correspond are worth the same, so the same one wins.
    rw [choices_cons, plain_cons]
    refine winner_perm_of_perm (hskip.cons _) ?_
    rw [List.forall₂_map_left_iff, List.forall₂_map_right_iff, List.forall₂_same]
    exact fun c hc => (hoption c (Slot.mem_available.mp hc).1).cons _

end Choices

/-! ### Searches -/

namespace CandidateTree

variable {tree : CandidateTree} {names : Site → String} {excluded : NameSet}

theorem renamed_self : tree.renamed Site.name = tree :=
  congrArg (fun root => { tree with root := root }) Part.relabelled_self

theorem blocked_renamed : (tree.renamed names).blocked excluded = tree.blocked excluded := by
  have hrivals : (tree.renamed names).rivalIds = tree.rivalIds := relabelling_renamed.rivalIds
  unfold blocked
  rw [hrivals]

/-- A search records its choices, whatever the slots are called. -/
theorem search_renamed {σ : Type} (hd : tree.root.DistinctAddresses) (stat : Stat)
    (hb : tree.blocked excluded = []) (names : Site → String) (memory : σ) :
    ∃ stats, ((tree.renamed names).search stat excluded (none : Option (CacheAccess σ))).run memory =
      (.ok ⟨tree.resultOf stat
        (.recording names (choices tree.conflicts stat tree.root.slots excluded)), stats⟩,
        memory) := by
  have hd' : (tree.renamed names).root.DistinctAddresses :=
    relabelling_renamed.distinctAddresses hd
  obtain ⟨stats, hrun⟩ := search_none hd' stat (blocked_renamed.trans hb) memory
  have hanswer : answer (tree.renamed names).conflicts stat (tree.renamed names).root.slots excluded =
      .recording names (choices tree.conflicts stat tree.root.slots excluded) := by
    show answer tree.conflicts stat (tree.root.renamed names).slots excluded = _
    rw [Part.renamed_eq_relabelled, Part.slots_relabelled]
    exact answer_relabelled relabelling_renamed _ _
  have hresult : ∀ best, (tree.renamed names).resultOf stat best = tree.resultOf stat best := by
    intro best
    unfold resultOf
    show BuildResult.mk (tree.root.renamed names).id (tree.root.renamed names).label.name _
      ((tree.root.renamed names).label.modifiers + best.sums) _ = _
    rw [Part.renamed_eq_relabelled, relabelling_renamed.id, Part.label_relabelled]
  rw [hanswer, hresult] at hrun
  exact ⟨stats, hrun⟩

end CandidateTree

section Built

variable {p : Provider Id} {c : Constraints} {maxDepth : Nat} {weaponId : String} {b : Stat}
  {tree : CandidateTree} {excluded : NameSet} {σ : Type}

/-- **Searches follow the plain recursion**: where a search on a built tree is not refused, it returns
the sums of the decisions of the plain recursion and records these decisions in some order.  That the
decisions are about the same slots of the tree, and not only about slots of the same names, is seen
by naming the slots anew: whatever they are called, what is recorded are the same decisions. -/
theorem search_follows_plain
    (hbuild : (CandidateTree.build p maxDepth weaponId b c).run = Except.ok tree)
    (haccepted : tree.blocked excluded = []) (stat : Stat) (memory : σ) :
    ∃ ds, ds.Perm (plain tree.conflicts stat tree.root.slots excluded) ∧
      (∃ stats, (tree.search stat excluded (none : Option (CacheAccess σ))).run memory =
        (.ok ⟨tree.resultOf stat ⟨Decision.sums ds, ds.map Decision.selection⟩, stats⟩,
          memory)) ∧
      ∀ names : Site → String, ∃ stats,
        ((tree.renamed names).search stat excluded (none : Option (CacheAccess σ))).run memory =
          (.ok ⟨tree.resultOf stat ⟨Decision.sums ds, ds.map (Decision.selectionAs names)⟩,
            stats⟩, memory) := by
  obtain ⟨part, -, hexp, rfl⟩ := CandidateTree.build_ok hbuild
  have hd := CandidateTree.distinctAddresses_ofExpansion maxDepth b hexp
  have hperm := @choices_perm_plain _ stat (CandidateTree.mutual_ofExpansion maxDepth b c part)
    _ (CandidateTree.covers_ofExpansion maxDepth b c part) excluded
  refine ⟨_, hperm, ?_, fun names => CandidateTree.search_renamed hd stat haccepted names memory⟩
  have hown := CandidateTree.search_renamed hd stat haccepted Site.name memory
  rw [CandidateTree.renamed_self] at hown
  exact hown

theorem search_follows_plain_sample : ∃ tree,
    (CandidateTree.build sampleCatalogue 3 "w" .recoil sampleConstraints).run = Except.ok tree ∧
      tree.blocked (.ofList ["a"]) = [] ∧
      ∃ ds, ds.Perm (plain tree.conflicts .recoil tree.root.slots (.ofList ["a"])) ∧
        (∃ stats, (tree.search .recoil (.ofList ["a"]) (none : Option (CacheAccess Unit))).run () =
          (.ok ⟨tree.resultOf .recoil ⟨Decision.sums ds, ds.map Decision.selection⟩, stats⟩,
            ())) ∧
        ∀ names : Site → String, ∃ stats,
          ((tree.renamed names).search .recoil (.ofList ["a"])
              (none : Option (CacheAccess Unit))).run () =
            (.ok ⟨tree.resultOf .recoil
              ⟨Decision.sums ds, ds.map (Decision.selectionAs names)⟩, stats⟩, ()) := by
  obtain ⟨tree, outcome, hbuild, hsearch⟩ := exists_sample_search
  obtain ⟨part, -, hexp, rfl⟩ := CandidateTree.build_ok hbuild
  have hd := CandidateTree.distinctAddresses_ofExpansion 3 .recoil hexp
  obtain ⟨haccepted, -⟩ := CandidateTree.search_none_ok hd hsearch
  exact ⟨_, hbuild, haccepted, search_follows_plain hbuild haccepted .recoil ()⟩

end Built

end Gunsmith
