/-
  Two ways to rule items out.

  Items can be ruled out for one search, on a tree that was built with them, or in the
  constraints, so that they never get into the tree.  A search that rules them out is
  refused if the pruning of the tree relies on one of them; if it is not refused, then both
  ways lead to builds of the same worth (`search_excludeAll`).

  With more exclusions an expansion asks less of the catalogue, so it succeeds if it
  succeeded before (`exists_expansion_excludeAll`).  Each of the two expansions is contained
  in the other, as far as the items go that are not excluded, so the same can be built on
  both (`reachable_excludeAll`).
-/
import Gunsmith.Proofs.Constraints
import Gunsmith.Proofs.Search.Optimality
import Gunsmith.Proofs.Tree.Embedding

namespace Gunsmith

/-! ### More exclusions -/

namespace Constraints

/-- The constraints with some more items that may not be used. -/
def excludeAll (c : Constraints) (ids : NameSet) : Constraints :=
  { c with excludedItems := c.excludedItems.insertAll ids.toList }

variable {c : Constraints} {ids : NameSet} {id : String}

@[simp]
theorem levels_excludeAll : (c.excludeAll ids).levels = c.levels := rfl

@[simp]
theorem ignores_excludeAll {name : String} : (c.excludeAll ids).Ignores name ↔ c.Ignores name :=
  Iff.rfl

@[simp]
theorem excludes_excludeAll : (c.excludeAll ids).Excludes id ↔ c.Excludes id ∨ id ∈ ids :=
  NameSet.mem_insertAll

/-- Constraints stay valid if the items that are excluded besides have proper names. -/
theorem validate_excludeAll (h : c.validate = .ok ())
    (hids : ∀ id ∈ ids, Text.isAllBlank id = false) : (c.excludeAll ids).validate = .ok () := by
  obtain ⟨hlevels, hignored, hexcluded⟩ := validate_iff.mp h
  refine validate_iff.mpr ⟨hlevels, hignored, fun id hid => ?_⟩
  rcases excludes_excludeAll.mp hid with hid | hid
  · exact hexcluded id hid
  · exact hids id hid

end Constraints

/-! ### Readings that succeed -/

namespace Reading

variable {α β : Type} {x : Reading Id α} {f : α → Reading Id β} {a : α}

/-- The steps do not fail. -/
def Succeeds (x : Reading Id α) : Prop := ∃ a, x.run = Except.ok a

theorem succeeds_pure (a : α) : Succeeds (pure a : Reading Id α) := ⟨a, rfl⟩

theorem succeeds_bind_of_ok (hx : x.run = Except.ok a) (hf : (f a).Succeeds) :
    (x >>= f).Succeeds := by
  obtain ⟨b, hb⟩ := hf
  exact ⟨b, (run_bind_of_ok hx).trans hb⟩

theorem Succeeds.bind (hx : x.Succeeds) (hf : ∀ a, (f a).Succeeds) : (x >>= f).Succeeds := by
  obtain ⟨a, ha⟩ := hx
  exact succeeds_bind_of_ok ha (hf a)

theorem succeeds_mapM {f : α → Reading Id β} {xs : List α} (h : ∀ x ∈ xs, (f x).Succeeds) :
    (xs.mapM f).Succeeds := by
  induction xs with
  | nil => exact succeeds_pure []
  | cons x xs ih =>
    rw [List.mapM_cons]
    refine (h x List.mem_cons_self).bind fun y => ?_
    exact (ih fun x' hx' => h x' (List.mem_cons_of_mem _ hx')).bind fun ys => succeeds_pure _

end Reading

section Expansions

variable {p : Provider Id} {c : Constraints} {excluded : NameSet}

/-- With more exclusions an item becomes unavailable, or the same is found about it. -/
theorem Considered.excludeAll {chain : List Placement} {slotId : String} {item : AllowedItem}
    {v : Verdict Label} (h : Considered p c chain slotId item v) (excluded : NameSet) :
    Considered p (c.excludeAll excluded) chain slotId item
      (if item.id ∈ excluded then .unavailable else v) := by
  split_ifs with hmem
  · exact Considered.excluded (Constraints.excludes_excludeAll.mpr (Or.inr hmem))
  have hkeep : ¬ c.Excludes item.id → ¬ (c.excludeAll excluded).Excludes item.id := by
    rw [Constraints.excludes_excludeAll]
    exact fun hex hex' => hex'.elim hex hmem
  cases h with
  | excluded hex => exact Considered.excluded (Constraints.excludes_excludeAll.mpr (Or.inl hex))
  | unsold hex hoffers hbuy => exact Considered.unsold (hkeep hex) hoffers hbuy
  | cyclic hex hoffers hbuy hchain => exact Considered.cyclic (hkeep hex) hoffers hbuy hchain
  | mounted hex hoffers hbuy hchain hfound =>
    exact Considered.mounted (hkeep hex) hoffers hbuy hchain hfound

/-! ### The two expansions -/

/-- With more exclusions an expansion succeeds as well. -/
theorem succeeds_expand_excludeAll (excluded : NameSet) {depth : Nat} :
    ∀ {chain : List Placement} {address : List Nat} {label : Label} {x : Part},
    (expand p c depth chain address label).run = Except.ok x →
    (expand p (c.excludeAll excluded) depth chain address label).Succeeds := by
  induction depth with
  | zero =>
    intro chain address label x h
    rw [expand] at h ⊢
    exact ⟨x, h⟩
  | succ depth ih =>
    intro chain address label x h
    obtain ⟨rows, slots, hrows, -, hslots⟩ := expand_succ_ok h
    rw [expand]
    refine Reading.succeeds_bind_of_ok (Reading.ask_of_ok hrows) ?_
    refine Reading.Succeeds.bind (Reading.succeeds_mapM fun r hr => ?_) fun slots' =>
      Reading.succeeds_pure _
    obtain ⟨row, i⟩ := r
    obtain ⟨s, -, allowed, verdicts, hs⟩ := exists_of_forall₂ hslots.flip hr
    refine Reading.succeeds_bind_of_ok (Reading.ask_of_ok hs.read) ?_
    refine Reading.Succeeds.bind (Reading.succeeds_mapM fun a ha => ?_) fun verdicts' =>
      Reading.succeeds_pure _
    obtain ⟨item, j⟩ := a
    obtain ⟨⟨id, verdict⟩, -, -, hsettled⟩ := exists_of_forall₂ hs.settled.flip ha
    -- The item is settled as it was, or not expanded at all.
    cases hsettled with
    | unavailable hcons =>
      refine Reading.succeeds_bind_of_ok (hcons.excludeAll excluded).run_consider ?_
      rw [ite_self]
      exact Reading.succeeds_pure _
    | cyclic hcons =>
      refine Reading.succeeds_bind_of_ok (hcons.excludeAll excluded).run_consider ?_
      split_ifs
      · exact Reading.succeeds_pure _
      · exact Reading.succeeds_pure _
    | mounted hcons hx =>
      refine Reading.succeeds_bind_of_ok (hcons.excludeAll excluded).run_consider ?_
      split_ifs
      · exact Reading.succeeds_pure _
      · exact (ih hx).bind fun part => Reading.succeeds_pure _

variable {maxDepth : Nat} {weaponId : String} {x y : Part}

/-- With more exclusions, of items with proper names, there is an expansion as well. -/
theorem exists_expansion_excludeAll
    (h : (CandidateTree.expansion p maxDepth weaponId c).run = Except.ok x)
    (hids : ∀ id ∈ excluded, Text.isAllBlank id = false) :
    (CandidateTree.expansion p maxDepth weaponId (c.excludeAll excluded)).Succeeds := by
  obtain ⟨w, hvalid, hw, hx⟩ := CandidateTree.expansion_ok h
  unfold CandidateTree.expansion
  rw [Constraints.validate_excludeAll hvalid hids]
  exact Reading.succeeds_bind_of_ok (Reading.ask_of_ok hw) (succeeds_expand_excludeAll excluded hx)

/-- What stands in an expansion can be had. -/
theorem Expanded.obtainable (h : Expanded p c x) {d : Part} (hd : x.Attached d) :
    Obtainable p c d.id := by
  induction x using Part.induct_slots with
  | step x ih =>
    obtain ⟨s, hs, e, he, hde⟩ := Part.attached_iff.mp hd
    rcases hde with rfl | hde
    · obtain ⟨depth, chain, address, label, hexp⟩ := h
      obtain ⟨_, row, i, allowed, verdicts, -, hslot⟩ := expand_slot hexp hs
      obtain ⟨item, -, j, hsettled⟩ := hslot.settled_of_mem he
      cases hsettled with
      | mounted hcons hx =>
        have hhad := hcons.obtainable_iff.mpr nofun
        obtain ⟨cut, hlabel⟩ := expand_label hx
        cases hcons with
        | mounted _ _ _ _ _ =>
          rw [Part.id, hlabel]
          exact hhad
    · exact ih s hs e he (h.candidate hs he).1 hde

theorem obtainable_excludeAll {id : String} :
    Obtainable p (c.excludeAll excluded) id ↔ Obtainable p c id ∧ id ∉ excluded := by
  unfold Obtainable
  rw [Constraints.excludes_excludeAll, not_or, and_right_comm, Constraints.levels_excludeAll]

/-- **The same can be built** where items are excluded from an expansion with them and on the
expansion without them. -/
theorem reachable_excludeAll (hx : (CandidateTree.expansion p maxDepth weaponId c).run = Except.ok x)
    (hy : (CandidateTree.expansion p maxDepth weaponId (c.excludeAll excluded)).run = Except.ok y) :
    x.reachable x.declarations.symmetric excluded = y.reachable y.declarations.symmetric ∅ := by
  have hforth : Admits p p c (c.excludeAll excluded) (· ∉ excluded) :=
    Admits.of_obtainable (fun _ h => h) fun id hid hhad => obtainable_excludeAll.mpr ⟨hhad, hid⟩
  have hback : Admits p p (c.excludeAll excluded) c fun _ => True :=
    Admits.of_obtainable (fun _ h => h) fun id _ hhad => (obtainable_excludeAll.mp hhad).1
  refine Set.Subset.antisymm (hforth.reachable_subset hx hy (Nat.le_refl _) fun d _ hid => ?_)
    (hback.reachable_subset hy hx (Nat.le_refl _) fun d hd _ => ?_)
  · exact ⟨hid, NameSet.not_mem_empty _⟩
  · have hhad := (CandidateTree.expanded_of_expansion hy).obtainable hd
    exact ⟨trivial, (obtainable_excludeAll.mp hhad).2⟩

/-! ### The two searches -/

/-- **The two ways of excluding items agree**: if a search that excludes items is not refused, then
the search on the tree that is built without them finds a build with the same sums. -/
theorem search_excludeAll {b : Stat} {tree : CandidateTree} {σ : Type} {memory memory' : σ}
    {outcome : SearchOutcome} (hids : ∀ id ∈ excluded, Text.isAllBlank id = false)
    (hbuild : (CandidateTree.build p maxDepth weaponId b c).run = Except.ok tree)
    (hsearch : (tree.search b excluded (none : Option (CacheAccess σ))).run memory =
      (.ok outcome, memory')) :
    ∃ tree' outcome',
      (CandidateTree.build p maxDepth weaponId b (c.excludeAll excluded)).run = Except.ok tree' ∧
        (tree'.search b ∅ (none : Option (CacheAccess σ))).run memory = (.ok outcome', memory) ∧
          outcome'.result.sums = outcome.result.sums := by
  obtain ⟨x, hx, hexp, rfl⟩ := CandidateTree.build_ok hbuild
  obtain ⟨y, hy⟩ := exists_expansion_excludeAll hx hids
  have hexp' := CandidateTree.expanded_of_expansion hy
  obtain ⟨outcome', hsearch'⟩ := CandidateTree.exists_search_empty hexp' b memory
  refine ⟨_, outcome', CandidateTree.build_of_expansion b hy, hsearch', ?_⟩
  have hbest := CandidateTree.isBest_of_search hexp hsearch
  have hbest' := CandidateTree.isBest_of_search hexp' hsearch'
  rw [reachable_excludeAll hx hy] at hbest
  exact hbest'.unique hbest

theorem search_excludeAll_sample : (∀ id ∈ NameSet.ofList ["a"], Text.isAllBlank id = false) ∧
    ∃ tree outcome tree' outcome',
      (CandidateTree.build sampleCatalogue 3 "w" .recoil sampleConstraints).run =
        Except.ok tree ∧
      (tree.search .recoil (.ofList ["a"]) (none : Option (CacheAccess Unit))).run () =
        (.ok outcome, ()) ∧
      (CandidateTree.build sampleCatalogue 3 "w" .recoil
        (sampleConstraints.excludeAll (.ofList ["a"]))).run = Except.ok tree' ∧
      (tree'.search .recoil ∅ (none : Option (CacheAccess Unit))).run () = (.ok outcome', ()) ∧
      outcome'.result.sums = outcome.result.sums := by
  have hids : ∀ id ∈ NameSet.ofList ["a"], Text.isAllBlank id = false := by
    intro id hid
    rw [NameSet.mem_ofList, List.mem_singleton] at hid
    subst hid
    decide
  obtain ⟨tree, outcome, hbuild, hsearch⟩ := exists_sample_search
  obtain ⟨tree', outcome', h⟩ := search_excludeAll hids hbuild hsearch
  exact ⟨hids, tree, outcome, tree', outcome', hbuild, hsearch, h⟩

end Expansions

end Gunsmith
