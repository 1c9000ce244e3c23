/-
  Searches that share a cache.

  A cache keeps the isolated solution of an item under the item and the stat.  What a
  search enters for an item is worth the best of all ways to fill the item as it was
  expanded (`isBest_isolated`): neither the order of candidates, nor the pruning, nor the
  conflicts of the tree in which the item stands have a part in it.  The cycle guard has
  (`worthAlike_of_cutAlike`): it looks at the placements on the way to an item, which
  neither the entry nor its key says anything about.  So entries may be shared if items
  are worth the same wherever they may be used (`WorthAlike`), and then a run of searches
  that share a cache, empty at the start, is worth the same, search by search, as without
  one (`performAll_worth`).

  The invariant of the run is that the cache is coherent (`Coherent`): an entry is worth
  the best of all ways to fill any item that it may be used for.
-/
import Gunsmith.Proofs.Cache
import Gunsmith.Proofs.Search.Optimality
import Gunsmith.Proofs.Tree.CutAlike

namespace Gunsmith

open Decision

/-! ### Isolated solutions -/

/-- **What an isolated solution is worth**: the best of all ways to fill the item as it was expanded,
conflicts left aside. -/
theorem isBest_isolated {m : ConflictMap} (hm : m.Mutual) (stat : Stat) {x : Part}
    (hfree : (x.finished m stat).conflictFree m = true)
    (hcand : ∀ id ∈ (x.finished m stat).ids, id ∈ m.candidates) :
    Totals.IsBest stat x.fillable (isolated m stat (x.finished m stat)).sums := by
  have htrim := trimming_finished m stat
  have hworth : (isolated m stat (x.finished m stat)).sums =
      x.label.modifiers + (answer m stat (x.finished m stat).slots ∅).sums := by
    rw [← htrim.label x, add_comm]
    rfl
  rw [hworth]
  constructor
  · have hcov : m.Covers (x.finished m stat).slots := fun s hs c hc id hid =>
      hcand id (Part.mem_ids_of_candidate hs hc hid)
    obtain ⟨ds, hds, -, hrec⟩ := answer_sound hm stat _ hcov ∅
    rw [htrim.slots] at hds
    obtain ⟨es, hes, rfl⟩ := htrim.fills hds
    refine ⟨es, hes, ?_⟩
    rw [hrec.sums, htrim.sums_mapped]
    rfl
  · rintro u ⟨ds, hds, rfl⟩
    have hordered := (trimming_ordered stat).fills_mapped (Slot.mem_candidates_ordered stat) hds
    obtain ⟨es, hes, hle, -⟩ := exchange_pruned m stat _ hordered
    rw [(trimming_ordered stat).sums_mapped] at hle
    rw [← (trimming_ordered stat).slots, ← (trimming_prune m stat).slots] at hes
    -- Nothing below a conflict-free item is in conflict with anything.
    have hallow : Allowed m ∅ (ids es) := by
      refine ⟨fun id _ => NameSet.not_mem_empty id, fun a ha b hb => ?_⟩
      exact ConflictMap.not_conflicts_of_not_live
        (Part.conflictFree_iff.mp hfree a (hes.ids_subset ha)) (hcand b (hes.ids_subset hb))
    exact Totals.AtLeast.add (Totals.AtLeast.refl _ _)
      ((answer_optimal hm _ hes hallow).trans hle)

/-! ### Requests -/

/-- What a search is asked for, apart from the constraints. -/
structure SearchRequest where
  weaponId : String
  stat : Stat
  maxDepth : Nat
  /-- The items that are excluded from the start of the search. -/
  excluded : NameSet

namespace SearchRequest

variable {σ : Type} (p : Provider Id) (c : Constraints)

/-- Builds the tree for the request and searches it for the stat that it was built for. -/
def perform (cache : Option (CacheAccess σ)) (r : SearchRequest) :
    ExceptT EvalError (StateM σ) SearchOutcome :=
  match (CandidateTree.build p r.maxDepth r.weaponId r.stat c).run with
  | .error e => throw e
  | .ok tree => tree.search r.stat r.excluded cache

/-- A search for the request may ask the cache for the item or enter it there: the cache can be used
for the tree, and the item stands in it and is conflict-free. -/
def MayCache (r : SearchRequest) (x : Part) : Prop :=
  ∃ part, (CandidateTree.expansion p r.maxDepth r.weaponId c).run = Except.ok part ∧
    (CandidateTree.ofExpansion r.maxDepth r.stat c part).Cacheable ∧ part.Attached x ∧
    (CandidateTree.ofExpansion r.maxDepth r.stat c part).root.Attached
      (x.finished part.declarations.symmetric r.stat) ∧
    (x.finished part.declarations.symmetric r.stat).conflictFree
      part.declarations.symmetric = true

variable {p c}

theorem MayCache.fullyExpanded {r : SearchRequest} {x : Part} (h : r.MayCache p c x) :
    x.FullyExpanded p c := by
  obtain ⟨part, hpart, ⟨-, hopen⟩, hx, -, -⟩ := h
  obtain ⟨hexp, hfound⟩ := (CandidateTree.expanded_of_expansion hpart).attached hx
  exact ⟨hexp, hfound, hx.truncated hopen⟩

end SearchRequest

/-- Where searches for the same stat may use the cache for an item, the item is worth the same: the
best of all ways to fill it, as the catalogue and the cycle guard allow there. -/
def WorthAlike (p : Provider Id) (c : Constraints) (rs : List SearchRequest) : Prop :=
  ∀ r ∈ rs, ∀ r' ∈ rs, r.stat = r'.stat →
    ∀ x y, r.MayCache p c x → r'.MayCache p c y → x.id = y.id →
      ∀ t, Totals.IsBest r.stat x.fillable t → Totals.IsBest r.stat y.fillable t

/-- **Only the cycle guard makes a difference**: items are worth the same where the guard cuts
alike. -/
theorem worthAlike_of_cutAlike {p : Provider Id} {c : Constraints} {rs : List SearchRequest}
    (h : ∀ r ∈ rs, ∀ r' ∈ rs, ∀ x y, r.MayCache p c x → r'.MayCache p c y → x.id = y.id →
      x.CutAlike y) : WorthAlike p c rs := by
  intro r hr r' hr' _ x y hx hy hid t hbest
  rw [← fillable_eq_of_cutAlike hx.fullyExpanded hy.fullyExpanded hid (h r hr r' hr' x y hx hy hid)]
  exact hbest

/-- In particular, items are worth the same if the guard keeps nothing out. -/
theorem worthAlike_of_uncut {p : Provider Id} {c : Constraints} {rs : List SearchRequest}
    (h : ∀ r ∈ rs, ∀ part,
      (CandidateTree.expansion p r.maxDepth r.weaponId c).run = Except.ok part →
        ∀ s ∈ part.allSlots, s.site.cyclic = []) : WorthAlike p c rs := by
  refine worthAlike_of_cutAlike fun r hr r' hr' x y hx hy _ => ?_
  obtain ⟨part, hpart, -, ⟨s, hs, hx⟩, -⟩ := hx
  obtain ⟨part', hpart', -, ⟨t, ht, hy⟩, -⟩ := hy
  refine Part.cutAlike_of_uncut (fun u hu => ?_) fun u hu => ?_
  · exact h r hr part hpart u (Part.mem_allSlots_of_candidate hs hx hu)
  · exact h r' hr' part' hpart' u (Part.mem_allSlots_of_candidate ht hy hu)

/-- Performs requests one after the other, with one memory of the cache. -/
def performAll {σ : Type} (p : Provider Id) (c : Constraints) (cache : Option (CacheAccess σ)) :
    List SearchRequest → StateM σ (List (Except EvalError SearchOutcome))
  | [] => return []
  | r :: rs => do
    let outcome ← (r.perform p c cache).run
    return outcome :: (← performAll p c cache rs)

/-- The sums of what a search returned, or its failure. -/
def worth (outcome : Except EvalError SearchOutcome) : Except EvalError Totals :=
  outcome.map fun outcome => outcome.result.sums

/-! ### Caches at work -/

section Caches

variable {σ : Type} {p : Provider Id} {c : Constraints} {rs : List SearchRequest}
  {cache : CacheAccess σ} {ok : σ → Prop} {contents : σ → String → Stat → Option CacheEntry}

/-- Every entry is worth the best of all ways to fill any item that it may be used for. -/
def Coherent (p : Provider Id) (c : Constraints) (rs : List SearchRequest)
    (contents : String → Stat → Option CacheEntry) : Prop :=
  ∀ id stat entry, contents id stat = some entry → ∀ r ∈ rs, r.stat = stat →
    ∀ x, r.MayCache p c x → x.id = id → Totals.IsBest stat x.fillable entry.sums

/-- Nothing is wrong with a cache that holds nothing. -/
theorem coherent_of_empty {contents : String → Stat → Option CacheEntry}
    (h : ∀ id stat, contents id stat = none) : Coherent p c rs contents := by
  intro id stat entry hentry
  rw [h] at hentry
  exact absurd hentry nofun

/-- An entry that is worth the best for one item keeps a cache coherent, if it is worth the best for
all items that it may be used for. -/
theorem Coherent.set {contents contents' : String → Stat → Option CacheEntry}
    (h : Coherent p c rs contents) (halike : WorthAlike p c rs) {r : SearchRequest} (hr : r ∈ rs)
    {x : Part} (hx : r.MayCache p c x) {entry : CacheEntry} (hid : x.id = entry.itemId)
    (hstat : r.stat = entry.stat) (hbest : Totals.IsBest entry.stat x.fillable entry.sums)
    (hset : ∀ id stat, contents' id stat =
      if id = entry.itemId ∧ stat = entry.stat then some entry else contents id stat) :
    Coherent p c rs contents' := by
  intro id stat entry' hentry r' hr' hstat' y hy hyid
  rw [hset] at hentry
  split_ifs at hentry with heq
  · obtain ⟨rfl, rfl⟩ := heq
    obtain rfl := Option.some.inj hentry
    have hxy : x.id = y.id := hid.trans hyid.symm
    rw [← hstat] at hbest ⊢
    exact halike r hr r' hr' (hstat.trans hstat'.symm) x y hx hy hxy _ hbest
  · exact h id stat entry' hentry r' hr' hstat' y hy hyid

/-- A coherent cache serves a search for one of the requests, and stays coherent. -/
theorem CacheAccess.Lawful.serves (hcache : cache.Lawful c ok contents)
    (halike : WorthAlike p c rs) {r : SearchRequest} (hr : r ∈ rs) {part : Part}
    (hpart : (CandidateTree.expansion p r.maxDepth r.weaponId c).run = Except.ok part)
    (hcacheable : (CandidateTree.ofExpansion r.maxDepth r.stat c part).Cacheable) :
    cache.Serves (CandidateTree.ofExpansion r.maxDepth r.stat c part) r.stat
      (fun a b => a.sums = b.sums) (fun s => ok s ∧ Coherent p c rs (contents s))
      fun _ => False := by
  have htrim := trimming_finished part.declarations.symmetric r.stat
  have hmay : ∀ d, (CandidateTree.ofExpansion r.maxDepth r.stat c part).root.Attached d →
      d.conflictFree part.declarations.symmetric = true →
      ∃ x, r.MayCache p c x ∧ x.id = d.id ∧ Totals.IsBest r.stat x.fillable
        (isolated part.declarations.symmetric r.stat d).sums := by
    intro d hd hfree
    obtain ⟨x, hx, rfl⟩ := htrim.attached hd
    refine ⟨x, ⟨part, hpart, hcacheable, hx, hd, hfree⟩, (htrim.id x).symm, ?_⟩
    exact isBest_isolated part.mutual_conflicts r.stat hfree fun id hid =>
      CandidateTree.mem_candidates_of_attached htrim hd hid
  refine ⟨fun d hd hfree s hs => ?_, fun d hd hfree solution hsol s hs => ?_⟩
  · obtain ⟨x, hx, hid, hbest⟩ := hmay d hd hfree
    obtain ⟨s', hget, hok, hcontents⟩ := hcache.get s hs.1 d.id r.stat
    have hget' : cache.get d.id r.stat
        (CandidateTree.ofExpansion r.maxDepth r.stat c part).constraints s = _ := hget
    rw [hget']
    refine ⟨fun entry hentry => ?_, hok, hcontents ▸ hs.2⟩
    exact (hs.2 d.id r.stat entry hentry r hr rfl x hx hid).unique hbest
  · obtain ⟨x, hx, hid, hbest⟩ := hmay d hd hfree
    obtain ⟨s', hset, hok, hcontents⟩ :=
      hcache.set s hs.1 ⟨d.id, r.stat, solution.sums, solution.selections⟩
    have hset' : cache.set (CandidateTree.ofExpansion r.maxDepth r.stat c part).constraints
        ⟨d.id, r.stat, solution.sums, solution.selections⟩ s = _ := hset
    rw [hset']
    refine ⟨trivial, hok, hs.2.set halike hr hx hid rfl ?_ hcontents⟩
    have hworth : solution.sums = (isolated part.declarations.symmetric r.stat d).sums := hsol
    show Totals.IsBest r.stat x.fillable solution.sums
    rw [hworth]
    exact hbest

/-! ### Runs -/

/-- **One search**: on a coherent cache it is worth what it is without a cache, and it leaves the
cache coherent. -/
theorem perform_worth (hcache : cache.Lawful c ok contents) (halike : WorthAlike p c rs)
    {r : SearchRequest} (hr : r ∈ rs) {memory : σ} (hok : ok memory)
    (hcoh : Coherent p c rs (contents memory)) :
    ∃ outcome memory', (r.perform p c (some cache)).run memory = (outcome, memory') ∧
      worth outcome = worth ((r.perform p c (none : Option (CacheAccess Unit))).run ()).1 ∧
      ok memory' ∧ Coherent p c rs (contents memory') := by
  unfold SearchRequest.perform
  rcases hbuild : (CandidateTree.build p r.maxDepth r.weaponId r.stat c).run with e | tree
  · exact ⟨.error e, memory, rfl, rfl, hok, hcoh⟩
  dsimp only
  obtain ⟨part, hpart, hexp, rfl⟩ := CandidateTree.build_ok hbuild
  have hdist := CandidateTree.distinctAddresses_ofExpansion r.maxDepth r.stat hexp
  by_cases hb : (CandidateTree.ofExpansion r.maxDepth r.stat c part).blocked r.excluded = []
  · -- Without a cache the plain answer is returned, with the cache something worth the same.
    obtain ⟨stats, hplain⟩ := CandidateTree.search_none hdist r.stat hb ()
    have hserves := fun (hcacheable : CandidateTree.Cacheable _) (a : CacheAccess σ)
      (ha : some cache = some a) => Option.some.inj ha ▸ hcache.serves halike hr hpart hcacheable
    have hmeets := CandidateTree.search_meets hdist Solution.congruence_sums hserves hb
      ⟨hok, hcoh⟩
    rw [hplain]
    rcases hrun : ((CandidateTree.ofExpansion r.maxDepth r.stat c part).search r.stat r.excluded
      (some cache)).run memory with ⟨e | outcome, memory'⟩
    · rw [hrun] at hmeets
      obtain ⟨⟨_, hfalse, -⟩, -⟩ := hmeets
      exact hfalse.elim
    · rw [hrun] at hmeets
      obtain ⟨⟨solution, hsums, hres⟩, hinv⟩ := hmeets
      refine ⟨.ok outcome, memory', rfl, congrArg Except.ok ?_, hinv⟩
      show outcome.result.sums = _
      rw [hres]
      exact congrArg (_ + ·) hsums
  · exact ⟨_, memory, CandidateTree.search_of_blocked hb memory, by
      rw [CandidateTree.search_of_blocked hb], hok, hcoh⟩

/-- **Sharing a cache changes nothing that counts**: searches that share a cache, empty at the start,
return the same sums, or fail in the same way, as they do without a cache, provided that items are
worth the same wherever the cache may be used for them. -/
theorem performAll_worth (hcache : cache.Lawful c ok contents) (halike : WorthAlike p c rs)
    {memory : σ} (hok : ok memory) (hempty : ∀ id stat, contents memory id stat = none) :
    ((performAll p c (some cache) rs).run memory).1.map worth =
      rs.map fun r => worth ((r.perform p c (none : Option (CacheAccess Unit))).run ()).1 := by
  have hrun : ∀ qs : List SearchRequest, qs ⊆ rs → ∀ memory, ok memory →
      Coherent p c rs (contents memory) →
      ((performAll p c (some cache) qs).run memory).1.map worth =
        qs.map fun r => worth ((r.perform p c (none : Option (CacheAccess Unit))).run ()).1 := by
    intro qs
    -- The cache stays coherent for all requests of the run, not only for those still to perform.
    induction qs with
    | nil =>
      intro _ memory _ _
      rfl
    | cons q qs ih =>
      intro hsub memory hok hcoh
      obtain ⟨hq, hqs⟩ := List.cons_subset.mp hsub
      obtain ⟨outcome, memory', hperform, hworth, hok', hcoh'⟩ :=
        perform_worth hcache halike hq hok hcoh
      have hcons : (performAll p c (some cache) (q :: qs)).run memory =
          (outcome :: ((performAll p c (some cache) qs).run memory').1,
            ((performAll p c (some cache) qs).run memory').2) := by
        rw [performAll]
        show (do let outcome ← (q.perform p c (some cache)).run; _ : StateM σ _) memory = _
        simp only [bind, StateT.bind]
        rw [hperform]
        rfl
      rw [hcons, List.map_cons, List.map_cons, hworth, ih hqs memory' hok' hcoh']
  exact hrun rs (List.Subset.refl _) memory hok (coherent_of_empty hempty)

/-- Searches for the sample weapon, with one attachment excluded in the second. -/
def sampleRequests : List SearchRequest :=
  [⟨"w", .recoil, 3, ∅⟩, ⟨"w", .recoil, 3, .ofList ["a"]⟩]

theorem performAll_worth_sample :
    ((performAll sampleCatalogue sampleConstraints (some Cache.access) sampleRequests).run
      (Store.bare, Cache.create .memory "0")).1.map worth =
    sampleRequests.map fun r => worth ((r.perform sampleCatalogue sampleConstraints
      (none : Option (CacheAccess Unit))).run ()).1 := by
  have huncut : ∃ part,
      (CandidateTree.expansion sampleCatalogue 3 "w" sampleConstraints).run = Except.ok part ∧
        ∀ s ∈ part.allSlots, s.site.cyclic = [] := ⟨_, rfl, by decide +kernel⟩
  obtain ⟨part, hpart, huncut⟩ := huncut
  refine performAll_worth (Cache.lawful_memory sampleConstraints) ?_ rfl
    (Cache.held_create _ Store.bare "0")
  refine worthAlike_of_uncut fun r hr part' hpart' => ?_
  have hsame : r.maxDepth = 3 ∧ r.weaponId = "w" := by
    rcases List.mem_pair.mp hr with rfl | rfl <;> exact ⟨rfl, rfl⟩
  rw [hsame.1, hsame.2, hpart] at hpart'
  exact Except.ok.inj hpart' ▸ huncut

end Caches

end Gunsmith
