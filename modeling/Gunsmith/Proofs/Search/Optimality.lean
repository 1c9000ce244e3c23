/-
  What a search returns.

  On a tree that was built, a search without a cache returns the best of all feasible
  builds on the tree (`search_isBest`), and what it returns is such a build, recorded
  slot by slot (`search_consistent`).  The tree is pruned, but its best feasible build is
  worth what the best one was before (`search_lossless`).
-/
import Gunsmith.Proofs.Search.Refinement
import Gunsmith.Proofs.Tree.Candidates

namespace Gunsmith

open Decision

/-! ### The plain answer on a tree -/

namespace CandidateTree

variable {tree : CandidateTree} {excluded : NameSet}

/-- The plain answer for the slots of the top is worth the best of all feasible builds. -/
theorem isBest_resultOf (hm : tree.conflicts.Mutual) (hcov : tree.conflicts.Covers tree.root.slots)
    (stat : Stat) (excluded : NameSet) :
    Totals.IsBest stat (tree.root.reachable tree.conflicts excluded)
      (tree.resultOf stat (answer tree.conflicts stat tree.root.slots excluded)).sums := by
  constructor
  · obtain ⟨ds, hds, hallow, hrec⟩ := answer_sound hm stat tree.root.slots hcov excluded
    refine ⟨ds, ⟨hds, hallow⟩, ?_⟩
    rw [Part.totals, ← hrec.sums]
    rfl
  · rintro u ⟨ds, hds, rfl⟩
    exact Totals.AtLeast.add (Totals.AtLeast.refl _ _)
      (answer_optimal hm tree.root.slots hds.fills hds.allowed)

/-- Items that are in conflict with some candidate may be excluded: the pruning does not rely on
them. -/
theorem blocked_of_live (h : ∀ id ∈ excluded, tree.conflicts.Live id) :
    tree.blocked excluded = [] := by
  refine List.filter_eq_nil_iff.mpr fun id hid hrival => ?_
  have hrival : id ∈ tree.root.rivalIds tree.conflicts := of_decide_eq_true hrival
  exact (Part.mem_rivalIds.mp hrival).not_live (h id hid)

section Expansions

variable {p : Provider Id} {c : Constraints} {part : Part} {maxDepth : Nat} {b : Stat} {σ : Type}

/-- What a search for the stat of the tree returns is worth the best of all feasible builds on the
expansion, before anything is ordered or dropped. -/
theorem isBest_of_search (hexp : Expanded p c part) {memory memory' : σ} {outcome : SearchOutcome}
    (h : ((ofExpansion maxDepth b c part).search b excluded (none : Option (CacheAccess σ))).run
      memory = (.ok outcome, memory')) :
    Totals.IsBest b (part.reachable part.declarations.symmetric excluded)
      outcome.result.sums := by
  obtain ⟨haccepted, hres⟩ := search_none_ok (distinctAddresses_ofExpansion maxDepth b hexp) h
  have hm := mutual_ofExpansion maxDepth b c part
  have hbest := isBest_resultOf hm (covers_ofExpansion maxDepth b c part) b excluded
  rw [← hres] at hbest
  have hrivals : ∀ id ∈ excluded, id ∉ (ofExpansion maxDepth b c part).rivalIds :=
    fun id hid hrival => List.filter_eq_nil_iff.mp haccepted id hid (decide_eq_true hrival)
  have hordered :=
    (Part.isBest_prune_iff hm (covers_trimmed (trimming_ordered b) part) hrivals).mp hbest
  rwa [Part.reachable_ordered] at hordered

/-- A search that excludes nothing is never refused. -/
theorem exists_search_empty (hexp : Expanded p c part) (stat : Stat) (memory : σ) :
    ∃ outcome, ((ofExpansion maxDepth b c part).search stat ∅
      (none : Option (CacheAccess σ))).run memory = (.ok outcome, memory) := by
  have hdist := distinctAddresses_ofExpansion maxDepth b hexp
  obtain ⟨stats, hrun⟩ := search_none hdist stat
    (blocked_of_live fun id hid => absurd hid (NameSet.not_mem_empty id)) memory
  exact ⟨_, hrun⟩

end Expansions

end CandidateTree

/-! ### A sample -/

/-- A small catalogue.  Of the attachments for the first three slots of the weapon, the second is in
conflict with the two others, which go together; of the two for the last slot, one has a slot of its
own and outranks the other. -/
def sampleCatalogue : Provider Id where
  weapon id :=
    if id = "w" then .ok ⟨"w", "Rifle", ⟨90, 40⟩⟩ else .error (.notFound "weapon" id)
  slots id := .ok <| match id with
    | "w" => [⟨"w_stock", "stock"⟩, ⟨"w_muzzle", "muzzle"⟩, ⟨"w_grip", "grip"⟩, ⟨"w_rail", "rail"⟩]
    | "d" => [⟨"d_scope", "scope"⟩]
    | _ => []
  allowed id := .ok <| match id with
    | "w_stock" => [⟨"a", "A"⟩]
    | "w_muzzle" => [⟨"b", "B"⟩]
    | "w_grip" => [⟨"c", "C"⟩]
    | "w_rail" => [⟨"e", "E"⟩, ⟨"d", "D"⟩]
    | "d_scope" => [⟨"f", "F"⟩]
    | _ => []
  properties id := .ok <| match id with
    | "a" => ⟨⟨-3, 0⟩, ["b"]⟩
    | "b" => ⟨⟨-5, 0⟩, ["c"]⟩
    | "c" => ⟨⟨-3, 0⟩, []⟩
    | "d" => ⟨⟨-2, 1⟩, []⟩
    | "e" => ⟨⟨-1, 1⟩, []⟩
    | _ => ⟨⟨-1, 3⟩, []⟩
  offers _ := .ok [⟨.prapor, 1, 100⟩]

/-- A buyer with the same level everywhere, and nothing ruled out. -/
def sampleConstraints : Constraints := .ofLevels (.uniform 4)

theorem exists_sample_expansion : ∃ part,
    (CandidateTree.expansion sampleCatalogue 3 "w" sampleConstraints).run = Except.ok part ∧
      part.declarations.symmetric.Live "a" :=
  ⟨_, rfl, by decide +kernel⟩

/-- On the tree of the sample, a search that excludes an attachment is not refused. -/
theorem exists_sample_search : ∃ tree outcome,
    (CandidateTree.build sampleCatalogue 3 "w" .recoil sampleConstraints).run = Except.ok tree ∧
      (tree.search .recoil (.ofList ["a"]) (none : Option (CacheAccess Unit))).run () =
        (.ok outcome, ()) := by
  obtain ⟨part, hpart, hlive⟩ := exists_sample_expansion
  have hdist := CandidateTree.distinctAddresses_ofExpansion 3 .recoil
    (CandidateTree.expanded_of_expansion hpart)
  have haccepted : (CandidateTree.ofExpansion 3 .recoil sampleConstraints part).blocked
      (.ofList ["a"]) = [] := by
    refine CandidateTree.blocked_of_live fun id hid => ?_
    rw [NameSet.mem_ofList, List.mem_singleton] at hid
    rw [hid]
    exact hlive
  obtain ⟨stats, hrun⟩ := CandidateTree.search_none hdist .recoil haccepted ()
  exact ⟨_, _, CandidateTree.build_of_expansion .recoil hpart, hrun⟩

/-! ### Built trees -/

section Built

variable {p : Provider Id} {c : Constraints} {maxDepth : Nat} {weaponId : String} {b stat : Stat}
  {tree : CandidateTree} {excluded : NameSet} {σ : Type} {memory memory' : σ}
  {outcome : SearchOutcome}

/-- **Searches are optimal**: what a search on a built tree returns is worth the best of all
feasible builds on that tree. -/
theorem search_isBest
    (hbuild : (CandidateTree.build p maxDepth weaponId b c).run = Except.ok tree)
    (hsearch : (tree.search stat excluded (none : Option (CacheAccess σ))).run memory =
      (.ok outcome, memory')) :
    Totals.IsBest stat (tree.root.reachable tree.conflicts excluded) outcome.result.sums := by
  obtain ⟨part, -, hexp, rfl⟩ := CandidateTree.build_ok hbuild
  obtain ⟨-, hres⟩ := CandidateTree.search_none_ok
    (CandidateTree.distinctAddresses_ofExpansion maxDepth b hexp) hsearch
  rw [hres]
  exact CandidateTree.isBest_resultOf (CandidateTree.mutual_ofExpansion ..)
    (CandidateTree.covers_ofExpansion maxDepth b c part) stat excluded

theorem search_isBest_sample : ∃ tree outcome,
    (CandidateTree.build sampleCatalogue 3 "w" .recoil sampleConstraints).run = Except.ok tree ∧
      (tree.search .recoil (.ofList ["a"]) (none : Option (CacheAccess Unit))).run () =
        (.ok outcome, ()) ∧
      Totals.IsBest .recoil (tree.root.reachable tree.conflicts (.ofList ["a"]))
        outcome.result.sums := by
  obtain ⟨tree, outcome, hbuild, hsearch⟩ := exists_sample_search
  exact ⟨tree, outcome, hbuild, hsearch, search_isBest hbuild hsearch⟩

/-- The build records an assignment of candidates to the slots that it opens, with nothing excluded
in it and no two items that the catalogue declares to be in conflict. -/
structure BuildResult.Consistent (result : BuildResult) (p : Provider Id) (tree : CandidateTree)
    (excluded : NameSet) (ds : List Decision) : Prop where
  /-- The build is one of the weapon. -/
  weapon : result.itemId = tree.root.id ∧ result.itemName = tree.root.label.name
  /-- The slots that are decided are those of the weapon and of every item mounted. -/
  opened : (ds.map Decision.slot).Perm (tree.root.slots ++ (mounted ds).flatMap Part.slots)
  /-- No slot is decided twice. -/
  distinct : (ds.map fun d => d.slot.site.address).Nodup
  /-- What stands in a slot is one of its candidates. -/
  candidates : ∀ d ∈ ds, ∀ x, d.part = some x → x ∈ d.slot.candidates
  /-- Slots name the item that has them. -/
  owners : (∀ s ∈ tree.root.slots, s.site.ownerId = tree.root.id) ∧
    ∀ x ∈ mounted ds, ∀ s ∈ x.slots, s.site.ownerId = x.id
  /-- There is one selection for each decision. -/
  records : result.selections.Perm (ds.map Decision.selection)
  /-- The sums are those of the weapon and of everything mounted. -/
  sums : result.sums =
    tree.root.label.modifiers + ((mounted ds).map fun x => x.label.modifiers).sum
  /-- Nothing is mounted that is excluded. -/
  available : ∀ x ∈ mounted ds, x.id ∉ excluded
  /-- Of two different items that are mounted, neither declares the other. -/
  compatible : ∀ x ∈ mounted ds, ∀ y ∈ mounted ds, x.id ≠ y.id →
    ∃ found, p.properties x.id = .ok found ∧ y.id ∉ found.conflicts

/-- **Searches return consistent builds**: what a search on a built tree returns records a way to
fill the slots of the weapon. -/
theorem search_consistent
    (hbuild : (CandidateTree.build p maxDepth weaponId b c).run = Except.ok tree)
    (hsearch : (tree.search stat excluded (none : Option (CacheAccess σ))).run memory =
      (.ok outcome, memory')) :
    outcome.result.stat = stat ∧
      ∃ ds, Fills tree.root.slots ds ∧ outcome.result.Consistent p tree excluded ds := by
  obtain ⟨part, -, hexp, rfl⟩ := CandidateTree.build_ok hbuild
  have hdist := CandidateTree.distinctAddresses_ofExpansion maxDepth b hexp
  obtain ⟨-, hres⟩ := CandidateTree.search_none_ok hdist hsearch
  obtain ⟨ds, hds, hallow, hrec⟩ := answer_sound
    (CandidateTree.mutual_ofExpansion maxDepth b c part) stat _
    (CandidateTree.covers_ofExpansion maxDepth b c part) excluded
  have hattached : ∀ x ∈ mounted ds,
      (CandidateTree.ofExpansion maxDepth b c part).root.Attached x := by
    intro x hx
    obtain ⟨d, hd, hdx⟩ := mem_mounted.mp hx
    have hslot := hds.sublist_allSlots.subset (List.mem_map_of_mem hd)
    rw [← Part.allSlots_eq] at hslot
    exact ⟨d.slot, hslot, hds.mem_candidates hd hdx⟩
  have hids : ∀ x ∈ mounted ds, x.id ∈ ids ds := fun x hx => List.mem_map_of_mem hx
  rw [hres]
  refine ⟨rfl, ds, hds, ?_⟩
  exact {
    weapon := ⟨rfl, rfl⟩
    opened := hds.perm_slots
    distinct := by
      have hsub := hds.sublist_allSlots.map fun s => s.site.address
      rw [← Part.allSlots_eq, List.map_map] at hsub
      exact hsub.nodup hdist
    candidates := fun d hd x hx => hds.mem_candidates hd hx
    owners := by
      refine ⟨fun s hs => CandidateTree.ownerId_finished hexp hs, fun x hx s hs => ?_⟩
      obtain ⟨y, -, rfl, hy, -⟩ := CandidateTree.attached_ofExpansion hexp (hattached x hx)
      exact CandidateTree.ownerId_finished hy hs
    records := hrec.selections
    sums := congrArg (_ + ·) hrec.sums
    available := fun x hx => hallow.available x.id (hids x hx)
    compatible := fun x hx y hy hne =>
      CandidateTree.not_declared_of_not_conflicts hexp (hattached x hx) hne
        (hallow.compatible x.id (hids x hx) y.id (hids y hy)) }

theorem search_consistent_sample : ∃ tree outcome,
    (CandidateTree.build sampleCatalogue 3 "w" .recoil sampleConstraints).run = Except.ok tree ∧
      (tree.search .recoil (.ofList ["a"]) (none : Option (CacheAccess Unit))).run () =
        (.ok outcome, ()) ∧
      outcome.result.stat = .recoil ∧
      ∃ ds, Fills tree.root.slots ds ∧
        outcome.result.Consistent sampleCatalogue tree (.ofList ["a"]) ds := by
  obtain ⟨tree, outcome, hbuild, hsearch⟩ := exists_sample_search
  exact ⟨tree, outcome, hbuild, hsearch, search_consistent hbuild hsearch⟩

/-! ### Pruning -/

/-- **Pruning loses nothing**: if a search on a built tree is not refused, then the best feasible
build on the tree is worth what the best one on the ordered expansion is. -/
theorem search_lossless
    (hbuild : (CandidateTree.build p maxDepth weaponId b c).run = Except.ok tree)
    (hsearch : ∀ detail, ((tree.search b excluded (none : Option (CacheAccess σ))).run memory).1 ≠
      .error (.invalidConfiguration detail)) :
    ∃ part t, (CandidateTree.expansion p maxDepth weaponId c).run = Except.ok part ∧
      Totals.IsBest b ((part.ordered b).reachable tree.conflicts excluded) t ∧
      Totals.IsBest b (tree.root.reachable tree.conflicts excluded) t := by
  obtain ⟨part, hpart, hexp, rfl⟩ := CandidateTree.build_ok hbuild
  have haccepted : (CandidateTree.ofExpansion maxDepth b c part).blocked excluded = [] := by
    by_contra hb
    exact hsearch _ (congrArg Prod.fst (CandidateTree.search_of_blocked hb memory))
  have hm := CandidateTree.mutual_ofExpansion maxDepth b c part
  have hbest := CandidateTree.isBest_resultOf hm
    (CandidateTree.covers_ofExpansion maxDepth b c part) b excluded
  have hrivals : ∀ id ∈ excluded, id ∉ (CandidateTree.ofExpansion maxDepth b c part).rivalIds := by
    intro id hid hrival
    exact List.filter_eq_nil_iff.mp haccepted id hid (decide_eq_true hrival)
  exact ⟨part, _, hpart, (Part.isBest_prune_iff hm
    (CandidateTree.covers_trimmed (trimming_ordered b) part) hrivals).mp hbest, hbest⟩

theorem search_lossless_sample : ∃ tree,
    (CandidateTree.build sampleCatalogue 3 "w" .recoil sampleConstraints).run = Except.ok tree ∧
      (∀ detail,
        ((tree.search .recoil (.ofList ["a"]) (none : Option (CacheAccess Unit))).run ()).1 ≠
          .error (.invalidConfiguration detail)) ∧
      ∃ part t,
        (CandidateTree.expansion sampleCatalogue 3 "w" sampleConstraints).run = Except.ok part ∧
        Totals.IsBest .recoil ((part.ordered .recoil).reachable tree.conflicts (.ofList ["a"])) t ∧
        Totals.IsBest .recoil (tree.root.reachable tree.conflicts (.ofList ["a"])) t := by
  obtain ⟨tree, outcome, hbuild, hsearch⟩ := exists_sample_search
  have hok : ∀ detail,
      ((tree.search .recoil (.ofList ["a"]) (none : Option (CacheAccess Unit))).run ()).1 ≠
        .error (.invalidConfiguration detail) := by
    intro detail herr
    rw [hsearch] at herr
    exact absurd herr nofun
  exact ⟨tree, hbuild, hok, search_lossless hbuild hok⟩

end Built

end Gunsmith
