/-
  Requests that ask for less.

  A request is relaxed by another one (`Request.RelaxedBy`) if the other buys at levels that
  are as high or higher, excludes fewer items, ignores fewer slots, looks as deep or deeper,
  or reads a catalogue that declares fewer conflicts.  Then its answer is at least as good
  (`search_relaxed`).

  The two trees can look very different: more items bring more conflicts, with these fewer
  candidates are free of conflicts, and what is pruned depends on both.  But a search is
  worth the best feasible build on the expansion that its tree was made from
  (`CandidateTree.isBest_of_search`), and the one expansion is contained in the other
  (`Admits.reachable_subset`).
-/
import Gunsmith.Proofs.Search.Optimality
import Gunsmith.Proofs.Tree.Embedding

namespace Gunsmith

/-! ### Levels -/

/-- The buyer of the latter levels has as high a level with every trader that the former knows. -/
def TraderLevels.RaisedTo (levels levels' : TraderLevels) : Prop :=
  ∀ t n, levels.level t = some n → ∃ n', levels'.level t = some n' ∧ n ≤ n'

theorem TraderLevels.RaisedTo.canPurchase {levels levels' : TraderLevels}
    (h : levels.RaisedTo levels') {offers : List Offer} (hbuy : levels.CanPurchase offers) :
    levels'.CanPurchase offers := by
  obtain ⟨o, ho, n, hn, hle⟩ := hbuy
  obtain ⟨n', hn', hle'⟩ := h o.trader n hn
  exact ⟨o, ho, n', hn', hle.trans hle'⟩

/-! ### Requests -/

/-- What is asked for, except for the weapon and the stat. -/
structure Request where
  catalogue : Provider Id
  constraints : Constraints
  maxDepth : Nat

namespace Request

/-- The tree of candidates for a request. -/
def build (r : Request) (weaponId : String) (stat : Stat) : Reading Id CandidateTree :=
  CandidateTree.build r.catalogue r.maxDepth weaponId stat r.constraints

/-- The latter request asks for less, in any of the ways in which this is possible. -/
structure RelaxedBy (r r' : Request) : Prop where
  weapon : r'.catalogue.weapon = r.catalogue.weapon
  slots : r'.catalogue.slots = r.catalogue.slots
  allowed : r'.catalogue.allowed = r.catalogue.allowed
  offers : r'.catalogue.offers = r.catalogue.offers
  modifiers : ∀ {id found found'}, r.catalogue.properties id = .ok found →
    r'.catalogue.properties id = .ok found' → found'.modifiers = found.modifiers
  /-- Fewer conflicts are declared. -/
  conflicts : ∀ {id found found'}, r.catalogue.properties id = .ok found →
    r'.catalogue.properties id = .ok found' → found'.conflicts ⊆ found.conflicts
  /-- Levels are raised, or traders added. -/
  levels : r.constraints.levels.RaisedTo r'.constraints.levels
  /-- Fewer items are excluded. -/
  excluded : ∀ id, r'.constraints.Excludes id → r.constraints.Excludes id
  /-- Fewer slots are ignored. -/
  ignored : ∀ name, r'.constraints.Ignores name → r.constraints.Ignores name
  /-- The limit of the depth is raised. -/
  maxDepth : r.maxDepth ≤ r'.maxDepth

/-- What asks for less admits as much. -/
theorem RelaxedBy.admits {r r' : Request} (h : r.RelaxedBy r') :
    Admits r.catalogue r'.catalogue r.constraints r'.constraints fun _ => True where
  weapon := h.weapon
  slots := h.slots
  allowed := h.allowed
  ignored := h.ignored
  obtainable := by
    rintro id - ⟨hex, offers, hoffers, hbuy⟩
    refine ⟨fun hex' => hex (h.excluded id hex'), offers, ?_, h.levels.canPurchase hbuy⟩
    rw [h.offers]
    exact hoffers
  modifiers := h.modifiers
  conflicts := h.conflicts

end Request

/-! ### Answers -/

/-- **Relaxing never makes the answer worse**: whenever both requests are answered, without
exclusions and without a cache, the answer to the one that asks for less is at least as good. -/
theorem search_relaxed {r r' : Request} (h : r.RelaxedBy r') {weaponId : String} {b : Stat}
    {tree tree' : CandidateTree} {σ : Type} {memory memory₁ memory' memory₁' : σ}
    {outcome outcome' : SearchOutcome}
    (hbuild : (r.build weaponId b).run = Except.ok tree)
    (hbuild' : (r'.build weaponId b).run = Except.ok tree')
    (hsearch : (tree.search b ∅ (none : Option (CacheAccess σ))).run memory =
      (.ok outcome, memory₁))
    (hsearch' : (tree'.search b ∅ (none : Option (CacheAccess σ))).run memory' =
      (.ok outcome', memory₁')) :
    Totals.AtLeast b outcome'.result.sums outcome.result.sums := by
  obtain ⟨x, hx, hexp, rfl⟩ := CandidateTree.build_ok hbuild
  obtain ⟨y, hy, hexp', rfl⟩ := CandidateTree.build_ok hbuild'
  have hbest := CandidateTree.isBest_of_search hexp hsearch
  have hbest' := CandidateTree.isBest_of_search hexp' hsearch'
  have hsub : x.reachable x.declarations.symmetric ∅ ⊆ y.reachable y.declarations.symmetric ∅ :=
    h.admits.reachable_subset hx hy h.maxDepth fun d _ hd => ⟨trivial, hd⟩
  exact hbest'.2 _ (hsub hbest.1)

/-- A request on the sample that asks for much: it is about one level with one trader, excludes an
item, ignores a slot and does not look far. -/
def strictSample : Request :=
  ⟨sampleCatalogue, ⟨.set .empty .prapor 1, .ofList ["scope"], .ofList ["a"]⟩, 1⟩

/-- The catalogue with no conflict declared. -/
def Provider.withoutConflicts (p : Provider Id) : Provider Id where
  weapon := p.weapon
  slots := p.slots
  allowed := p.allowed
  properties id :=
    match p.properties id with
    | .ok found => .ok ⟨found.modifiers, []⟩
    | .error e => .error e
  offers := p.offers

theorem Provider.properties_withoutConflicts {p : Provider Id} {id : String} {found : Properties}
    (h : p.properties id = .ok found) :
    p.withoutConflicts.properties id = .ok ⟨found.modifiers, []⟩ := by
  unfold withoutConflicts
  dsimp only
  rw [h]

/-- A request on the sample without its conflicts that asks for little. -/
def looseSample : Request := ⟨sampleCatalogue.withoutConflicts, sampleConstraints, 3⟩

theorem strictSample_relaxedBy : strictSample.RelaxedBy looseSample where
  weapon := rfl
  slots := rfl
  allowed := rfl
  offers := rfl
  modifiers h h' := by
    rw [← Except.ok.inj ((Provider.properties_withoutConflicts h).symm.trans h')]
  conflicts h h' := by
    rw [← Except.ok.inj ((Provider.properties_withoutConflicts h).symm.trans h')]
    exact List.nil_subset _
  levels t n h := by
    have hn : n = 1 := by
      cases t <;> simp [strictSample, TraderLevels.empty] at h
      exact h.symm
    exact ⟨4, rfl, by omega⟩
  excluded id h := absurd h (NameSet.not_mem_empty id)
  ignored name h := absurd h (NameSet.not_mem_empty name)
  maxDepth := by decide

theorem search_relaxed_sample : strictSample.RelaxedBy looseSample ∧
    ∃ tree tree' outcome outcome',
      (strictSample.build "w" .recoil).run = Except.ok tree ∧
      (looseSample.build "w" .recoil).run = Except.ok tree' ∧
      (tree.search .recoil ∅ (none : Option (CacheAccess Unit))).run () = (.ok outcome, ()) ∧
      (tree'.search .recoil ∅ (none : Option (CacheAccess Unit))).run () = (.ok outcome', ()) ∧
      Totals.AtLeast .recoil outcome'.result.sums outcome.result.sums := by
  obtain ⟨x, hx⟩ : ∃ x, (CandidateTree.expansion strictSample.catalogue 1 "w"
      strictSample.constraints).run = Except.ok x := ⟨_, rfl⟩
  obtain ⟨y, hy⟩ : ∃ y, (CandidateTree.expansion looseSample.catalogue 3 "w"
      looseSample.constraints).run = Except.ok y := ⟨_, rfl⟩
  have hbuild := CandidateTree.build_of_expansion .recoil hx
  have hbuild' := CandidateTree.build_of_expansion .recoil hy
  obtain ⟨outcome, hsearch⟩ := CandidateTree.exists_search_empty
    (CandidateTree.expanded_of_expansion hx) .recoil ()
  obtain ⟨outcome', hsearch'⟩ := CandidateTree.exists_search_empty
    (CandidateTree.expanded_of_expansion hy) .recoil ()
  exact ⟨strictSample_relaxedBy, _, _, outcome, outcome', hbuild, hbuild', hsearch, hsearch',
    search_relaxed strictSample_relaxedBy hbuild hbuild' hsearch hsearch'⟩

end Gunsmith
