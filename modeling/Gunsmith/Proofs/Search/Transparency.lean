/-
  Searches on a coherent cache.

  The isolated solution of an item is what the search itself finds for the slots below the
  item, with nothing excluded and without a cache (`CandidateTree.solveAlone`).  A cache is
  coherent for a tree and a stat if whatever it holds for the conflict-free items of the tree
  are their isolated solutions (`CandidateTree.CoherentCache`).  On such a cache, a search
  returns the very build that it returns without one, it enters isolated solutions only, and
  it leaves the cache coherent (`search_transparent`), provided that items of the tree with
  the same id have the same isolated solution: they share an entry.

  The cache may keep its entries in memory or in a table of the store.  Both are read through
  `Cache.found?`, and what is entered is found from then on (`Cache.set_of_found?`).
-/
import Gunsmith.Proofs.Cache.Backends
import Gunsmith.Proofs.Search.Optimality
import Gunsmith.Proofs.Search.Recording
import Gunsmith.Proofs.Store.Catalogue
import Mathlib

namespace Gunsmith

/-! ### What a cache holds -/

namespace Cache

variable {memory : Store × Cache} {id : String} {stat : Stat} {levels : TraderLevels}
  {found : Option CacheEntry}

/-- What a cache holds under a key, wherever it keeps its entries. -/
def found? (memory : Store × Cache) (id : String) (stat : Stat) (levels : TraderLevels) :
    Except StoreError (Option CacheEntry) :=
  match memory.2.entries with
  | some entries => .ok entries[key id stat levels]?
  | none => memory.1.isolated? id stat levels memory.2.version

/-- A question is answered with what the cache holds. -/
theorem fst_get (memory : Store × Cache) (id : String) (stat : Stat) (c : Constraints) :
    (get id stat c memory).1 = found? memory id stat c.levels := by
  obtain ⟨store, cache⟩ := memory
  rcases hentries : cache.entries with _ | entries
  · simp only [get, found?, hentries]
    cases store.isolated? id stat c.levels cache.version <;> rfl
  · rw [get_memory hentries]
    simp only [found?, hentries]

/-- A question changes nothing in what the cache holds. -/
theorem found?_get (memory : Store × Cache) (id : String) (stat : Stat) (c : Constraints) :
    found? (get id stat c memory).2 = found? memory := by
  obtain ⟨store, cache⟩ := memory
  rcases hentries : cache.entries with _ | entries
  · rcases hfound : store.isolated? id stat c.levels cache.version with e | entry
    · simp only [get, hentries, hfound]
    · rw [get_table hentries hfound]
      funext id stat levels
      simp only [found?, entries_countLookup, version_countLookup, hentries]
  · rw [get_memory hentries]
    funext id stat levels
    simp only [found?, entries_countLookup, hentries]

/-- **What is entered is found**: if a cache answers any question at all, then it takes an entry,
and holds it under its key from then on. -/
theorem set_of_found? (h : found? memory id stat levels = .ok found) (c : Constraints)
    (entry : CacheEntry) : ∃ memory', set c entry memory = (.ok (), memory') ∧
      ∀ id stat levels, found? memory' id stat levels =
        if entry.itemId = id ∧ entry.stat = stat ∧ c.levels.key = levels.key then .ok (some entry)
        else found? memory id stat levels := by
  obtain ⟨store, cache⟩ := memory
  rcases hentries : cache.entries with _ | entries
  · simp only [found?, hentries] at h
    -- The table exists, since it was read.
    obtain ⟨rows, hrows, -⟩ := Store.rows_bind_ok h
    obtain ⟨store', rows', hcall, -, hread⟩ :=
      Transaction.isolated?_setIsolated hrows c.levels cache.version entry
    refine ⟨_, set_table hentries hcall, fun id stat levels => ?_⟩
    have hentries' : cache.countWrite.entries = none := hentries
    simp only [found?, hentries, hentries']
    rw [hread]
    simp only [countWrite, and_true]
  · refine ⟨_, set_memory hentries c entry, fun id stat levels => ?_⟩
    simp only [found?, hentries]
    rw [getElem?_insert_key]
    split_ifs <;> rfl

end Cache

/-! ### Isolated solutions -/

namespace CandidateTree

variable {tree : CandidateTree} {stat : Stat} {memory : Store × Cache} {x : Part}

/-- What the search finds for the slots below an item with nothing excluded and without a cache, the
item itself counted in. -/
def solveAlone (tree : CandidateTree) (stat : Stat) (x : Part) : Except EvalError Solution :=
  let ctx : SearchContext Unit := ⟨tree, stat, none⟩
  ((ctx.solve x.slots ∅).run ⟨∅, ⟨0, 0, 0, 0⟩, ()⟩).1.map (SearchContext.withOwn x)

/-- The item is one that a search may ask the cache for, or enter there. -/
structure Shareable (tree : CandidateTree) (x : Part) : Prop where
  attached : tree.root.Attached x
  conflictFree : x.conflictFree tree.conflicts = true

/-- The items that may be shared, one by one. -/
def shareables (tree : CandidateTree) : List Part :=
  (tree.root.allSlots.flatMap Slot.candidates).filter fun x => x.conflictFree tree.conflicts

theorem mem_shareables : x ∈ tree.shareables ↔ tree.Shareable x := by
  rw [shareables, List.mem_filter, List.mem_flatMap]
  exact ⟨fun h => ⟨h.1, h.2⟩, fun h => ⟨h.attached, h.conflictFree⟩⟩

/-- The entry is the isolated solution of the item that it names. -/
def IsolatedEntry (tree : CandidateTree) (stat : Stat) (entry : CacheEntry) : Prop :=
  ∃ x, tree.Shareable x ∧ entry.itemId = x.id ∧ entry.stat = stat ∧
    tree.solveAlone stat x = .ok ⟨entry.sums, entry.selections⟩

/-- The cache answers for every item that may be shared, with its isolated solution or with
nothing. -/
def CoherentCache (tree : CandidateTree) (stat : Stat) (memory : Store × Cache) : Prop :=
  ∀ x, tree.Shareable x → ∃ found, (Cache.get x.id stat tree.constraints memory).1 = .ok found ∧
    ∀ entry, found = some entry → tree.solveAlone stat x = .ok ⟨entry.sums, entry.selections⟩

/-- The search alone finds what the plain recursion finds. -/
theorem solveAlone_eq (hd : tree.root.DistinctAddresses) (stat : Stat)
    (hx : tree.root.Attached x) :
    tree.solveAlone stat x = .ok (isolated tree.conflicts stat x) := by
  let ctx : SearchContext Unit := ⟨tree, stat, none⟩
  have hslots : x.slots ⊆ tree.root.allSlots := fun s hs => by
    obtain ⟨t, ht, hxt⟩ := hx
    exact Part.mem_allSlots_of_candidate ht hxt (Part.mem_allSlots_of_mem_slots hs)
  have hnone : ∀ cache, ctx.cache = some cache →
      cache.Serves ctx.tree ctx.stat (· = ·) (fun _ => True) fun _ => False :=
    fun cache h => absurd h (Option.some_ne_none cache).symm
  have hsolve := SearchContext.solve_meets Solution.congruence_eq hnone hd x.slots hslots ∅
    ⟨∅, ⟨0, 0, 0, 0⟩, ()⟩ ⟨Memo.sound_empty, trivial⟩
  show ((ctx.solve x.slots ∅).run ⟨∅, ⟨0, 0, 0, 0⟩, ()⟩).1.map (SearchContext.withOwn x) = _
  rcases hrun : (ctx.solve x.slots ∅).run ⟨∅, ⟨0, 0, 0, 0⟩, ()⟩ with ⟨e | solution, final⟩
  · rw [hrun] at hsolve
    obtain ⟨⟨_, hfalse, -⟩, -⟩ := hsolve
    exact hfalse.elim
  · rw [hrun] at hsolve
    obtain ⟨rfl, -⟩ := hsolve
    rfl

/-! ### Coherent caches at work -/

/-- Items that share an entry have the same isolated solution. -/
def SharesAlike (tree : CandidateTree) (stat : Stat) : Prop :=
  ∀ x y, tree.Shareable x → tree.Shareable y → x.id = y.id →
    tree.solveAlone stat x = tree.solveAlone stat y

/-- Looking something up keeps a cache coherent. -/
theorem CoherentCache.get (h : tree.CoherentCache stat memory) (id : String) (stat' : Stat)
    (c : Constraints) : tree.CoherentCache stat (Cache.get id stat' c memory).2 := by
  intro x hx
  rw [Cache.fst_get, Cache.found?_get, ← Cache.fst_get]
  exact h x hx

/-- Entering an isolated solution succeeds and keeps a cache coherent, if items that share an entry
have the same one. -/
theorem CoherentCache.set (h : tree.CoherentCache stat memory) (halike : tree.SharesAlike stat)
    {entry : CacheEntry} (hentry : tree.IsolatedEntry stat entry) : ∃ memory',
      Cache.set tree.constraints entry memory = (.ok (), memory') ∧
        tree.CoherentCache stat memory' := by
  obtain ⟨x, hx, hid, hstat, halone⟩ := hentry
  obtain ⟨found, hfound, -⟩ := h x hx
  rw [Cache.fst_get] at hfound
  obtain ⟨memory', hset, hfound'⟩ := Cache.set_of_found? hfound tree.constraints entry
  refine ⟨memory', hset, fun y hy => ?_⟩
  rw [Cache.fst_get, hfound']
  -- Either the entry is read back, maybe for another item with the same id, or the old answer.
  split_ifs with hkey
  · refine ⟨some entry, rfl, fun entry' hentry' => ?_⟩
    rw [← Option.some.inj hentry', ← halone]
    exact halike y x hy hx (hkey.1.symm.trans hid)
  · rw [← Cache.fst_get]
    exact h y hy

/-- A coherent cache that records what is entered serves a search with isolated solutions, and what
it records are isolated solutions. -/
theorem serves_recorded (hd : tree.root.DistinctAddresses) (halike : tree.SharesAlike stat) :
    Cache.access.recorded.Serves tree stat (· = ·)
      (fun memory => tree.CoherentCache stat memory.1 ∧
        ∀ entry ∈ memory.2, tree.IsolatedEntry stat entry) fun _ => False where
  get x hx hfree := by
    rintro ⟨memory, entered⟩ ⟨hcoh, hentered⟩
    obtain ⟨found, hfound, hsol⟩ := hcoh x ⟨hx, hfree⟩
    have hget : Cache.access.recorded.get x.id stat tree.constraints (memory, entered) =
        (.ok found, (Cache.get x.id stat tree.constraints memory).2, entered) := by
      rw [← hfound]
      rfl
    rw [hget]
    refine ⟨fun entry hentry => ?_, hcoh.get _ _ _, hentered⟩
    exact Except.ok.inj ((hsol entry hentry).symm.trans (solveAlone_eq hd stat hx))
  set x hx hfree := by
    rintro solution hsol ⟨memory, entered⟩ ⟨hcoh, hentered⟩
    -- The search enters what it found without exclusions, which is the isolated solution.
    let entry : CacheEntry := ⟨x.id, stat, solution.sums, solution.selections⟩
    have hentry : tree.IsolatedEntry stat entry := by
      refine ⟨x, ⟨hx, hfree⟩, rfl, rfl, ?_⟩
      rw [solveAlone_eq hd stat hx, ← hsol]
    obtain ⟨memory', hset, hcoh'⟩ := hcoh.set halike hentry
    have hset' : Cache.access.recorded.set tree.constraints entry (memory, entered) =
        (.ok (), memory', entered ++ [entry]) := by
      show ((Cache.set tree.constraints entry memory).1,
        (Cache.set tree.constraints entry memory).2, _) = _
      rw [hset]
    rw [hset']
    refine ⟨trivial, hcoh', fun entry' hmem => ?_⟩
    rcases List.mem_append.mp hmem with hmem | hmem
    · exact hentered entry' hmem
    · rw [List.mem_singleton.mp hmem]
      exact hentry

/-- **One search on a coherent cache**: it returns the build of the plain answer, enters isolated
solutions only, and leaves the cache coherent. -/
theorem search_coherent {excluded : NameSet} (hd : tree.root.DistinctAddresses)
    (halike : tree.SharesAlike stat) (hcoh : tree.CoherentCache stat memory)
    (hb : tree.blocked excluded = []) :
    ∃ outcome memory' entered,
      (tree.search stat excluded (some Cache.access.recorded)).run (memory, []) =
        (.ok outcome, memory', entered) ∧
      outcome.result =
        tree.resultOf stat (answer tree.conflicts stat tree.root.slots excluded) ∧
      (∀ entry ∈ entered, tree.IsolatedEntry stat entry) ∧ tree.CoherentCache stat memory' := by
  have hserves : tree.Cacheable → ∀ a, some Cache.access.recorded = some a →
      a.Serves tree stat (· = ·) (fun memory => tree.CoherentCache stat memory.1 ∧
        ∀ entry ∈ memory.2, tree.IsolatedEntry stat entry) fun _ => False := by
    rintro - a ha
    rw [← Option.some.inj ha]
    exact serves_recorded hd halike
  have hstart : tree.CoherentCache stat memory ∧
      ∀ entry ∈ ([] : List CacheEntry), tree.IsolatedEntry stat entry :=
    ⟨hcoh, fun entry hmem => absurd hmem List.not_mem_nil⟩
  have hmeets := @search_meets _ _ _ _ _ _ _ _ hd Solution.congruence_eq hserves hb
    (memory, []) hstart
  rcases hrun : (tree.search stat excluded (some Cache.access.recorded)).run (memory, [])
    with ⟨e | outcome, memory', entered⟩
  · rw [hrun] at hmeets
    obtain ⟨⟨_, hfalse, -⟩, -⟩ := hmeets
    exact hfalse.elim
  · rw [hrun] at hmeets
    obtain ⟨⟨solution, rfl, hresult⟩, hcoh', hentered⟩ := hmeets
    exact ⟨outcome, memory', entered, rfl, hresult, hentered, hcoh'⟩

end CandidateTree

/-! ### Built trees -/

/-- **A coherent cache is used transparently.**  If items of a built tree that share an entry have
the same isolated solution, then a search on a coherent cache, with exclusions that are accepted,
returns the build that it returns without a cache.  All that it enters are isolated solutions, as a
cache that records this shows, and the cache stays coherent. -/
theorem search_transparent {p : Provider Id} {c : Constraints} {maxDepth : Nat} {weaponId : String}
    {b stat : Stat} {tree : CandidateTree} {excluded : NameSet} {memory : Store × Cache}
    {outcome : SearchOutcome}
    (hbuild : (CandidateTree.build p maxDepth weaponId b c).run = Except.ok tree)
    (halike : tree.SharesAlike stat) (hcoh : tree.CoherentCache stat memory)
    (hsearch : (tree.search stat excluded (none : Option (CacheAccess Unit))).run () =
      (.ok outcome, ())) :
    ∃ outcome' memory' entered,
      (tree.search stat excluded (some Cache.access)).run memory = (.ok outcome', memory') ∧
      outcome'.result = outcome.result ∧
      (tree.search stat excluded (some Cache.access.recorded)).run (memory, []) =
        (.ok outcome', memory', entered) ∧
      (∀ entry ∈ entered, tree.IsolatedEntry stat entry) ∧ tree.CoherentCache stat memory' := by
  obtain ⟨part, -, hexp, rfl⟩ := CandidateTree.build_ok hbuild
  have hd := CandidateTree.distinctAddresses_ofExpansion maxDepth b hexp
  obtain ⟨hb, hplain⟩ := CandidateTree.search_none_ok hd hsearch
  obtain ⟨outcome', memory', entered, hrun, hresult, hentered, hcoh'⟩ :=
    CandidateTree.search_coherent hd halike hcoh hb
  refine ⟨outcome', memory', entered, ?_, hresult.trans hplain.symm, hrun, hentered, hcoh'⟩
  -- The record apart, the search on the recording cache is the search on the cache itself.
  have hshown := CacheAccess.shows_recorded Cache.access
  refine (CandidateTree.search_shows hshown (memory, [])).trans ?_
  rw [hrun]

/-- A weapon that takes the same mount on both sides, with a scope on it; the grip and the stock
exclude each other. -/
def twinCatalogue : Provider Id where
  weapon id := .ok ⟨id, "Rifle", ⟨90, 40⟩⟩
  slots id := .ok <| match id with
    | "w" => [⟨"w_left", "side"⟩, ⟨"w_right", "side"⟩, ⟨"w_grip", "grip"⟩, ⟨"w_stock", "stock"⟩]
    | "m" => [⟨"m_scope", "scope"⟩]
    | _ => []
  allowed id := .ok <| match id with
    | "w_left" => [⟨"m", "Mount"⟩]
    | "w_right" => [⟨"m", "Mount"⟩]
    | "w_grip" => [⟨"g", "Grip"⟩]
    | "w_stock" => [⟨"k", "Stock"⟩]
    | "m_scope" => [⟨"s", "Scope"⟩]
    | _ => []
  properties id := .ok <| match id with
    | "m" => ⟨⟨1, 2⟩, []⟩
    | "s" => ⟨⟨-2, 1⟩, []⟩
    | "g" => ⟨⟨-5, 0⟩, ["k"]⟩
    | _ => ⟨⟨-3, 0⟩, []⟩
  offers _ := .ok [⟨.prapor, 1, 100⟩]

/-- A cache in the store that holds the isolated solution of the scope, and something else for the
grip, which is not conflict-free. -/
def twinMemory : Store × Cache :=
  let entered := (Cache.set sampleConstraints ⟨"s", .recoil, ⟨-2, 1⟩, []⟩
    (Store.fresh, Cache.create .table "0")).2
  (Cache.set sampleConstraints ⟨"g", .recoil, ⟨0, 0⟩, []⟩ entered).2

/-- The mount stands on both sides, and the scope on both mounts.  The grip is left out. -/
theorem search_transparent_sample : ∃ tree outcome,
    (CandidateTree.build twinCatalogue 3 "w" .recoil sampleConstraints).run = Except.ok tree ∧
      tree.Cacheable ∧ tree.SharesAlike .recoil ∧ tree.CoherentCache .recoil twinMemory ∧
      (tree.search .recoil (.ofList ["g"]) (none : Option (CacheAccess Unit))).run () =
        (.ok outcome, ()) ∧
      ∃ outcome' memory' entered,
        (tree.search .recoil (.ofList ["g"]) (some Cache.access)).run twinMemory =
          (.ok outcome', memory') ∧
        outcome'.result = outcome.result ∧
        (tree.search .recoil (.ofList ["g"]) (some Cache.access.recorded)).run (twinMemory, []) =
          (.ok outcome', memory', entered) ∧
        (∀ entry ∈ entered, tree.IsolatedEntry .recoil entry) ∧
        tree.CoherentCache .recoil memory' := by
  have hcacheable : ((CandidateTree.build twinCatalogue 3 "w" .recoil
      sampleConstraints).run.toOption.map fun tree => decide tree.Cacheable) = some true := by cbv
  have halike : ((CandidateTree.build twinCatalogue 3 "w" .recoil
      sampleConstraints).run.toOption.map fun tree => tree.shareables.all fun x =>
        tree.shareables.all fun y => decide
          (x.id = y.id → tree.solveAlone .recoil x = tree.solveAlone .recoil y)) =
      some true := by cbv
  have hcoh : ((CandidateTree.build twinCatalogue 3 "w" .recoil
      sampleConstraints).run.toOption.map fun tree => tree.shareables.all fun x =>
        (Cache.get x.id .recoil tree.constraints twinMemory).1.toOption.any fun found =>
          found.all fun entry => decide
            (tree.solveAlone .recoil x = .ok ⟨entry.sums, entry.selections⟩)) = some true := by cbv
  have hblocked : ((CandidateTree.build twinCatalogue 3 "w" .recoil
      sampleConstraints).run.toOption.map fun tree => tree.blocked (.ofList ["g"])) =
      some [] := by cbv
  rcases hbuild : (CandidateTree.build twinCatalogue 3 "w" .recoil sampleConstraints).run
    with e | tree
  · rw [hbuild] at hcacheable
    cases hcacheable
  rw [hbuild] at hcacheable halike hcoh hblocked
  have halike : tree.SharesAlike .recoil := fun x y hx hy hid => by
    have hrow := List.all_eq_true.mp (Option.some.inj halike) x
      (CandidateTree.mem_shareables.mpr hx)
    exact of_decide_eq_true
      (List.all_eq_true.mp hrow y (CandidateTree.mem_shareables.mpr hy)) hid
  have hcoh : tree.CoherentCache .recoil twinMemory := fun x hx => by
    have hentry := List.all_eq_true.mp (Option.some.inj hcoh) x
      (CandidateTree.mem_shareables.mpr hx)
    rcases hget : (Cache.get x.id .recoil tree.constraints twinMemory).1 with e | found
    · rw [hget] at hentry
      exact Bool.noConfusion hentry
    · rw [hget] at hentry
      refine ⟨found, rfl, ?_⟩
      rintro entry rfl
      exact of_decide_eq_true hentry
  obtain ⟨part, -, hexp, rfl⟩ := CandidateTree.build_ok hbuild
  have hd := CandidateTree.distinctAddresses_ofExpansion 3 .recoil hexp
  obtain ⟨stats, hsearch⟩ := CandidateTree.search_none hd .recoil (Option.some.inj hblocked) ()
  exact ⟨_, _, rfl, of_decide_eq_true (Option.some.inj hcacheable), halike, hcoh, hsearch,
    search_transparent hbuild halike hcoh hsearch⟩

end Gunsmith
