/-
  Conflicts with the weapon.

  No two items that a search chooses are in conflict, whichever of the two declares it
  (`CandidateTree.not_declared_of_chosen`).  The weapon is not among what a search chooses.
  So a conflict with the weapon keeps nothing out of a build (`exists_opposed_search`), and
  more than that: whatever is recorded of conflicts with the weapon, no search can tell
  (`search_unopposed`), unless the catalogue lets the weapon itself stand in a slot.

  A search asks about conflicts among candidates only, so it makes the same choices by two
  records that are alike (`choices_alike`).
-/
import Gunsmith.Proofs.Search.Choices
import Gunsmith.Proofs.Tree.Unopposed

namespace Gunsmith

open Decision

/-! ### Choices by records that are alike -/

/-- **Records that are alike lead to the same choices**. -/
theorem choices_alike {m m' : ConflictMap} {stat : Stat} (h : m.Alike m') (slots : List Slot) :
    m.Covers slots → ∀ {excluded excluded' : NameSet},
      (∀ id ∈ m.candidates, (id ∈ excluded' ↔ id ∈ excluded)) →
      choices m' stat slots excluded' = choices m stat slots excluded := by
  induction slots using Slot.induct_work with
  | nil =>
    intro _ excluded excluded' _
    rw [choices_nil, choices_nil]
  | cons slot rest ihr ihc =>
    intro hcov excluded excluded' hex
    have hids : ∀ c ∈ slot.candidates, ∀ id ∈ c.ids, id ∈ m.candidates :=
      hcov slot List.mem_cons_self
    have havailable : slot.available excluded' = slot.available excluded :=
      List.filter_congr fun c hc =>
        decide_eq_decide.mpr (not_congr (hex c.id (hids c hc c.id c.id_mem_ids)))
    rw [choices_cons, choices_cons, ihr hcov.tail hex, havailable]
    congr 1
    refine List.map_congr_left fun c hc => congrArg (List.cons _) ?_
    have hc := (Slot.mem_available.mp hc).1
    unfold choicesBelow
    rw [h.conflictFree (hids c hc)]
    split_ifs with hfree
    · rw [(ihc c hc).1 (hcov.below hc) hex, ihr hcov.tail hex]
    -- What is excluded on account of the candidate may differ, but in no candidate.
    · refine (ihc c hc).2 (hcov.tail.append (hcov.below hc)) fun id hid => ?_
      rw [NameSet.mem_insertAll, NameSet.mem_insertAll]
      exact or_congr (hex id hid) (h.conflicts c.id (hids c hc c.id c.id_mem_ids) id hid)

/-- An answer records the choices. -/
theorem answer_eq_recording {m : ConflictMap} {stat : Stat} (slots : List Slot)
    (excluded : NameSet) :
    answer m stat slots excluded = .recording Site.name (choices m stat slots excluded) := by
  have h : answer m stat (slots.map (Slot.relabelled (fun label => label) (Site.renamed Site.name)))
      excluded = .recording Site.name (choices m stat slots excluded) :=
    answer_relabelled relabelling_renamed slots excluded
  have hself : slots.map (Slot.relabelled (fun label => label) (Site.renamed Site.name)) = slots :=
    (List.map_congr_left fun s _ => Slot.relabelled_self).trans (List.map_id slots)
  rwa [hself] at h

/-- What is declared beside the conflicts on record makes no difference to an answer. -/
theorem answer_unopposed {m : ConflictMap} {stat : Stat} {id : String} (slots : List Slot)
    (excluded : NameSet) :
    answer m stat (slots.map (Slot.unopposed id)) excluded = answer m stat slots excluded := by
  rw [answer_eq_recording slots]
  exact answer_relabelled relabelling_unopposed slots excluded

/-! ### What is chosen -/

theorem chosenIds_selections (ds : List Decision) :
    chosenIds (ds.map Decision.selection) = ids ds := by
  unfold chosenIds ids mounted
  rw [List.filterMap_map, List.map_filterMap]
  rfl

namespace CandidateTree

/-- The build that a search without a cache ends with. -/
def bestBuild (tree : CandidateTree) (stat : Stat) (excluded : NameSet) : BuildResult :=
  tree.resultOf stat (answer tree.conflicts stat tree.root.slots excluded)

variable {p : Provider Id} {c : Constraints} {maxDepth : Nat} {b stat : Stat} {part : Part}
  {id : String} {excluded : NameSet}

/-- **Nothing that is chosen together is in conflict**: of two items, neither declares the other. -/
theorem not_declared_of_chosen (hexp : Expanded p c part) {x y : String}
    (hx : x ∈ chosenIds ((ofExpansion maxDepth b c part).bestBuild stat excluded).selections)
    (hy : y ∈ chosenIds ((ofExpansion maxDepth b c part).bestBuild stat excluded).selections)
    (hne : x ≠ y) : ∃ found, p.properties x = .ok found ∧ y ∉ found.conflicts := by
  obtain ⟨ds, hds, hallow, hrec⟩ := answer_sound (mutual_ofExpansion maxDepth b c part) stat _
    (covers_ofExpansion maxDepth b c part) excluded
  have hids : (chosenIds ((ofExpansion maxDepth b c part).bestBuild stat excluded).selections).Perm
      (ids ds) := by
    rw [← chosenIds_selections]
    exact hrec.selections.filterMap Selection.itemId
  have hx := hids.mem_iff.mp hx
  have hy := hids.mem_iff.mp hy
  have hxy := hallow.compatible x hx y hy
  obtain ⟨x, hmounted, rfl⟩ := List.mem_map.mp hx
  obtain ⟨y, -, rfl⟩ := List.mem_map.mp hy
  exact not_declared_of_not_conflicts hexp (hds.attached hmounted) hne hxy

/-! ### Trees without conflicts with an item -/

/-- Without the conflicts with an item that is no candidate, the same exclusions are refused. -/
theorem blocked_unopposed (maxDepth : Nat) (b : Stat) (c : Constraints)
    (hid : id ∉ part.declarations.candidates) :
    (ofExpansion maxDepth b c (part.unopposed id)).blocked excluded =
      (ofExpansion maxDepth b c part).blocked excluded := by
  unfold blocked
  rw [rivalIds_unopposed maxDepth b c hid]

/-- **Conflicts with an item that is no candidate** make no difference to the best build. -/
theorem bestBuild_unopposed (maxDepth : Nat) (b : Stat) (c : Constraints)
    (hid : id ∉ part.declarations.candidates) :
    (ofExpansion maxDepth b c (part.unopposed id)).bestBuild stat excluded =
      (ofExpansion maxDepth b c part).bestBuild stat excluded := by
  have hroot := root_unopposed maxDepth b c hid
  -- The labels make no difference to an answer, and neither do records that are alike.
  have hanswer : answer (ofExpansion maxDepth b c (part.unopposed id)).conflicts stat
      (ofExpansion maxDepth b c (part.unopposed id)).root.slots excluded =
        answer (ofExpansion maxDepth b c part).conflicts stat
          (ofExpansion maxDepth b c part).root.slots excluded := by
    rw [hroot, Part.slots_unopposed, answer_unopposed, answer_eq_recording, answer_eq_recording]
    congr 1
    exact choices_alike (Part.alike_unopposed hid) _ (covers_ofExpansion maxDepth b c part)
      fun _ _ => Iff.rfl
  unfold bestBuild
  rw [hanswer]
  unfold resultOf
  rw [hroot, Part.id_unopposed, Part.label_unopposed]
  rfl

end CandidateTree

/-! ### Catalogues that differ in conflicts with the weapon -/

/-- The catalogues differ in nothing but conflicts between one item and others. -/
def Provider.SameBut (id : String) (p p' : Provider Id) : Prop :=
  p'.unopposed id = p.unopposed id

/-- The row is about a conflict with the item, whichever side declares it. -/
def ConflictRow.Opposes (id : String) (row : ConflictRow) : Prop :=
  row.itemId = id ∨ row.otherId = id

instance (id : String) (row : ConflictRow) : Decidable (row.Opposes id) :=
  inferInstanceAs (Decidable (_ ∨ _))

theorem filter_mergeSort (keep : String → Bool) (names : List String) :
    (names.mergeSort fun a b => decide (a ≤ b)).filter keep =
      (names.filter keep).mergeSort fun a b => decide (a ≤ b) := by
  refine List.Perm.eq_of_pairwise (fun a b _ _ hab hba => le_antisymm hab hba) ?_ ?_ ?_
  · exact (List.pairwise_mergeSort' (· ≤ ·) names).filter _
  · exact List.pairwise_mergeSort' (· ≤ ·) _
  · exact ((List.mergeSort_perm _ _).filter _).trans (List.mergeSort_perm _ _).symm

/-- **Tables of conflicts** that differ in rows about one item make catalogues that differ in
conflicts with it. -/
theorem Store.sameBut_provider {s : Store} {id : String} {rows rows' : List ConflictRow}
    (h : s.conflicts = some rows)
    (hrows : (rows'.filter fun row => ¬ row.Opposes id) = rows.filter fun row => ¬ row.Opposes id) :
    s.provider.SameBut id { s with conflicts := some rows' }.provider := by
  -- What another item declares against third ones is in the rows that are not about the item.
  have hdeclared : ∀ (rows : List ConflictRow) (other : String), other ≠ id →
      ((rows.filter fun row => row.itemId == other).map ConflictRow.otherId).filter (· ≠ id) =
        ((rows.filter fun row => ¬ row.Opposes id).filter fun row => row.itemId == other).map
          ConflictRow.otherId := by
    intro rows other hother
    rw [List.filter_map, List.filter_filter, List.filter_filter]
    congr 1
    refine List.filter_congr fun row _ => ?_
    by_cases hown : row.itemId = other
    · simp [ConflictRow.Opposes, hown, hother]
    · rw [beq_false_of_ne hown, Bool.and_false, Bool.false_and]
  unfold Provider.SameBut Provider.unopposed
  congr 1
  funext other
  show Except.map _ (Store.propertiesOf _ other) = Except.map _ (s.propertiesOf other)
  unfold Store.propertiesOf
  have hconflicts : s.rows .conflicts = .ok rows := by
    rw [Store.rows, show s.rows? .conflicts = some rows from h]
  have hconflicts' : ({ s with conflicts := some rows' } : Store).rows .conflicts = .ok rows' := rfl
  rw [hconflicts, hconflicts']
  show Except.map _ (s.rows .items >>= _) = Except.map _ (s.rows .items >>= _)
  cases s.rows .items with
  | error e => rfl
  | ok items =>
    dsimp only [bind, Except.bind]
    cases items.find? fun item => item.id = other with
    | none => rfl
    | some item =>
      refine congrArg (fun names => Except.ok (Properties.mk item.modifiers names)) ?_
      dsimp only
      by_cases hother : other = id
      · rw [if_pos hother, if_pos hother]
      · rw [if_neg hother, if_neg hother, filter_mergeSort, filter_mergeSort,
          hdeclared rows other hother, hdeclared rows' other hother, hrows]

/-! ### Searches -/

section Built

variable {p p' : Provider Id} {c : Constraints} {maxDepth : Nat} {weaponId id : String}
  {b stat : Stat} {tree : CandidateTree} {excluded : NameSet} {part : Part}

/-- Catalogues that differ in conflicts with one item have expansions that do. -/
theorem Provider.SameBut.expansion (h : p.SameBut id p')
    (hpart : (CandidateTree.expansion p maxDepth weaponId c).run = Except.ok part) :
    ∃ part', (CandidateTree.expansion p' maxDepth weaponId c).run = Except.ok part' ∧
      part'.unopposed id = part.unopposed id := by
  have hsame : Part.unopposed id <$> CandidateTree.expansion p' maxDepth weaponId c =
      Part.unopposed id <$> CandidateTree.expansion p maxDepth weaponId c := by
    rw [← CandidateTree.expansion_unopposed, ← CandidateTree.expansion_unopposed, h]
  have hrun := congrArg ExceptT.run hsame
  rw [ExceptT.run_map, ExceptT.run_map, hpart] at hrun
  rcases hpart' : (CandidateTree.expansion p' maxDepth weaponId c).run with e | part'
  · rw [hpart'] at hrun
    cases hrun
  · rw [hpart'] at hrun
    exact ⟨part', rfl, Except.ok.inj hrun⟩

/-- **Conflicts hold among what is mounted, and not with the weapon**: in the build that a search
ends with, no item declares another one.  As long as the weapon itself may stand in no slot, nothing
depends on what is recorded of conflicts with it: on every catalogue that differs in these only, the
tree is built as well, the same exclusions are accepted, and the search ends with the same build. -/
theorem search_unopposed {σ : Type}
    (hbuild : (CandidateTree.build p maxDepth weaponId b c).run = Except.ok tree)
    (haccepted : tree.blocked excluded = []) (stat : Stat) (memory : σ) :
    ∃ outcome, (tree.search stat excluded (none : Option (CacheAccess σ))).run memory =
        (.ok outcome, memory) ∧
      (∀ x ∈ chosenIds outcome.result.selections, ∀ y ∈ chosenIds outcome.result.selections,
        x ≠ y → ∃ found, p.properties x = .ok found ∧ y ∉ found.conflicts) ∧
      (weaponId ∉ tree.conflicts.candidates → ∀ p', p.SameBut weaponId p' →
        ∃ tree' outcome',
          (CandidateTree.build p' maxDepth weaponId b c).run = Except.ok tree' ∧
          (tree'.search stat excluded (none : Option (CacheAccess σ))).run memory =
            (.ok outcome', memory) ∧
          outcome'.result = outcome.result) := by
  obtain ⟨part, hpart, hexp, rfl⟩ := CandidateTree.build_ok hbuild
  obtain ⟨stats, hrun⟩ := CandidateTree.search_none
    (CandidateTree.distinctAddresses_ofExpansion maxDepth b hexp) stat haccepted memory
  refine ⟨_, hrun, fun x hx y hy hne => ?_, fun hid p' hp' => ?_⟩
  · exact CandidateTree.not_declared_of_chosen hexp hx hy hne
  · -- Both trees are compared with the one that knows of no conflicts with the weapon.
    obtain ⟨part', hpart', hsame⟩ := hp'.expansion hpart
    have hid : weaponId ∉ part.declarations.candidates := hid
    have hid' : weaponId ∉ part'.declarations.candidates := by
      rw [← part'.candidates_unopposed, hsame, part.candidates_unopposed]
      exact hid
    have haccepted' : (CandidateTree.ofExpansion maxDepth b c part').blocked excluded = [] := by
      rw [← CandidateTree.blocked_unopposed maxDepth b c hid', hsame,
        CandidateTree.blocked_unopposed maxDepth b c hid]
      exact haccepted
    have hbest : (CandidateTree.ofExpansion maxDepth b c part').bestBuild stat excluded =
        (CandidateTree.ofExpansion maxDepth b c part).bestBuild stat excluded := by
      rw [← CandidateTree.bestBuild_unopposed maxDepth b c hid', hsame,
        CandidateTree.bestBuild_unopposed maxDepth b c hid]
    obtain ⟨stats', hrun'⟩ := CandidateTree.search_none
      (CandidateTree.distinctAddresses_ofExpansion maxDepth b
        (CandidateTree.expanded_of_expansion hpart')) stat haccepted' memory
    exact ⟨_, _, CandidateTree.build_of_expansion b hpart', hrun', hbest⟩

end Built

/-- A weapon and two attachments for it: one declares a conflict with the weapon, and with the other
one the weapon declares a conflict. -/
def opposedStore : Store :=
  { Store.fresh with
    items := some [⟨"w", "Rifle", .weapon, ⟨90, 40⟩⟩, ⟨"a", "A", .attachment, ⟨-1, 0⟩⟩,
      ⟨"b", "B", .attachment, ⟨-2, 0⟩⟩]
    slots := some [⟨"w_sight", "w", "sight", 0⟩, ⟨"w_rail", "w", "rail", 1⟩]
    allowed := some [⟨"w_sight", "a", 0⟩, ⟨"w_rail", "b", 0⟩]
    conflicts := some [⟨"a", "w"⟩, ⟨"w", "b"⟩]
    offers := some [⟨"a", "Prapor", 1, 100⟩, ⟨"b", "Prapor", 1, 100⟩] }

/-- The weapon and its attachments, with no conflicts on record. -/
def unopposedStore : Store := { opposedStore with conflicts := some [] }

/-- Both attachments are chosen, and the weapon is no candidate. -/
theorem exists_opposed_search : ∃ tree outcome,
    (CandidateTree.build opposedStore.provider 3 "w" .recoil sampleConstraints).run =
      Except.ok tree ∧
      tree.blocked ∅ = [] ∧ "w" ∉ tree.conflicts.candidates ∧
      (tree.search .recoil ∅ (none : Option (CacheAccess Unit))).run () = (.ok outcome, ()) ∧
      chosenIds outcome.result.selections = ["a", "b"] := by
  have hrun : (CandidateTree.build opposedStore.provider 3 "w" .recoil
      sampleConstraints).run.toOption.map (fun tree =>
        (decide ("w" ∈ tree.conflicts.candidates),
          ((tree.search .recoil ∅ (none : Option (CacheAccess Unit))).run ()).1.toOption.map
            fun outcome => chosenIds outcome.result.selections)) =
      some (false, some ["a", "b"]) := by cbv
  rcases hbuild : (CandidateTree.build opposedStore.provider 3 "w" .recoil
    sampleConstraints).run with e | tree
  · rw [hbuild] at hrun
    cases hrun
  · rw [hbuild] at hrun
    obtain ⟨hcandidate, hchosen⟩ := Prod.mk.inj (Option.some.inj hrun)
    obtain ⟨part, -, hexp, rfl⟩ := CandidateTree.build_ok hbuild
    obtain ⟨outcome, hsearch⟩ := CandidateTree.exists_search_empty hexp .recoil ()
    obtain ⟨haccepted, -⟩ := CandidateTree.search_none_ok
      (CandidateTree.distinctAddresses_ofExpansion 3 .recoil hexp) hsearch
    rw [hsearch] at hchosen
    exact ⟨_, outcome, rfl, haccepted, of_decide_eq_false hcandidate, hsearch,
      Option.some.inj hchosen⟩

theorem search_unopposed_sample : ∃ tree outcome tree' outcome',
    (CandidateTree.build opposedStore.provider 3 "w" .recoil sampleConstraints).run =
        Except.ok tree ∧
      tree.blocked ∅ = [] ∧
      (tree.search .recoil ∅ (none : Option (CacheAccess Unit))).run () = (.ok outcome, ()) ∧
      (∀ x ∈ chosenIds outcome.result.selections, ∀ y ∈ chosenIds outcome.result.selections,
        x ≠ y → ∃ found, opposedStore.provider.properties x = .ok found ∧ y ∉ found.conflicts) ∧
      "w" ∉ tree.conflicts.candidates ∧
      (CandidateTree.build unopposedStore.provider 3 "w" .recoil sampleConstraints).run =
        Except.ok tree' ∧
      (tree'.search .recoil ∅ (none : Option (CacheAccess Unit))).run () = (.ok outcome', ()) ∧
      outcome'.result = outcome.result := by
  obtain ⟨tree, _, hbuild, haccepted, hcandidate, -⟩ := exists_opposed_search
  obtain ⟨outcome, hsearch, hchosen, hsame⟩ := search_unopposed hbuild haccepted .recoil ()
  obtain ⟨tree', outcome', h⟩ := hsame hcandidate unopposedStore.provider
    (Store.sameBut_provider rfl (by decide))
  exact ⟨tree, outcome, tree', outcome', hbuild, haccepted, hsearch, hchosen, hcandidate, h⟩

/-- **Conflicts with the weapon keep nothing out**: an attachment that declares a conflict with the
weapon is chosen, and so is one with which the weapon declares a conflict. -/
theorem search_mounts_opposed :
    opposedStore.Declares "a" "w" ∧ opposedStore.Declares "w" "b" ∧ ∃ tree outcome,
      (CandidateTree.build opposedStore.provider 3 "w" .recoil sampleConstraints).run =
        Except.ok tree ∧
        tree.blocked ∅ = [] ∧
        (tree.search .recoil ∅ (none : Option (CacheAccess Unit))).run () = (.ok outcome, ()) ∧
        "a" ∈ chosenIds outcome.result.selections ∧ "b" ∈ chosenIds outcome.result.selections := by
  refine ⟨List.mem_cons_self, List.mem_cons_of_mem _ List.mem_cons_self, ?_⟩
  obtain ⟨tree, outcome, hbuild, haccepted, -, hsearch, hchosen⟩ := exists_opposed_search
  refine ⟨tree, outcome, hbuild, haccepted, hsearch, ?_, ?_⟩ <;> rw [hchosen]
  · exact List.mem_cons_self
  · exact List.mem_cons_of_mem _ List.mem_cons_self

end Gunsmith
