/-
  What a search leaves alone.

  A search works on the memory of its cache through the two calls of the cache and in no
  other way: whatever both calls keep, the search keeps (`CandidateTree.search_keeps`),
  whether it succeeds or fails.  The cache of the library writes the table of isolated
  solutions and no other (`Cache.keeps_access`).
-/
import Gunsmith.Cache
import Gunsmith.Proofs.Search.Refinement
import Gunsmith.Proofs.Store.Isolated

namespace Gunsmith

variable {σ α : Type} {P : σ → Prop}

/-- Both calls of the cache keep a property of its memory. -/
structure CacheAccess.Keeps (cache : CacheAccess σ) (P : σ → Prop) : Prop where
  get : ∀ id stat c s, P s → P (cache.get id stat c s).2
  set : ∀ c entry s, P s → P (cache.set c entry s).2

namespace Searching

/-- The steps keep a property of the memory of the cache, whether they succeed or fail. -/
abbrev Keeps (P : σ → Prop) (x : Searching σ α) : Prop :=
  Meets (fun s => P s.cache) (fun _ => True) x fun _ => True

theorem run_onCache (call : StateM σ (Except StoreError α)) (s : Progress σ) :
    (onCache call).run s =
      ((call s.cache).1.mapError EvalError.cache, { s with cache := (call s.cache).2 }) := rfl

theorem keeps_onCache {call : StateM σ (Except StoreError α)} (h : ∀ s, P s → P (call s).2) :
    Keeps P (onCache call) := by
  intro s hs
  rw [run_onCache]
  cases (call s.cache).1 <;> exact ⟨trivial, h s.cache hs⟩

theorem keeps_count {f : SearchStats → SearchStats} : Keeps P (count f : Searching σ Unit) :=
  fun _ hs => ⟨trivial, hs⟩

theorem keeps_known? {key : Subproblem} : Keeps P (known? key : Searching σ (Option Solution)) :=
  fun _ hs => ⟨trivial, hs⟩

theorem keeps_remember {key : Subproblem} {solution : Solution} :
    Keeps P (remember key solution : Searching σ Unit) :=
  fun _ hs => ⟨trivial, hs⟩

end Searching

open Searching

namespace SearchContext

variable {ctx : SearchContext σ}

section

variable (hcache : ∀ cache, ctx.cache = some cache → cache.Keeps P)

include hcache

theorem solveAndStore_keeps {cache : CacheAccess σ} (hc : ctx.cache = some cache) {part : Part}
    (hbelow : ∀ excluded, Keeps P (ctx.solve part.slots excluded)) :
    Keeps P (ctx.solveAndStore cache part) := by
  rw [solveAndStore]
  refine keeps_count.bind fun _ _ => (hbelow ∅).bind fun solution _ => ?_
  refine (keeps_onCache fun s hs => ?_).bind fun _ _ => Meets.pure trivial
  exact (hcache cache hc).set _ _ s hs

theorem solveBelow_keeps {part : Part}
    (hbelow : ∀ excluded, Keeps P (ctx.solve part.slots excluded)) (excluded : NameSet) :
    Keeps P (ctx.solveBelow part excluded) := by
  have hplain : Keeps P (do return withOwn part (← ctx.solve part.slots excluded)) :=
    (hbelow excluded).bind fun _ _ => Meets.pure trivial
  rw [solveBelow]
  split
  · exact hplain
  · next cache hc =>
    have hstore := solveAndStore_keeps hcache hc hbelow
    split_ifs with htouch
    · exact hplain
    · refine (keeps_onCache fun s hs => (hcache cache hc).get _ _ _ s hs).bind fun found _ => ?_
      rcases found with _ | entry
      · exact hstore
      · dsimp only
        split_ifs
        · exact keeps_count.bind fun _ _ => Meets.pure trivial
        · exact hstore

theorem solveChoice_keeps {slot : Slot} {part : Part} {rest : List Slot}
    (hbelow : ∀ excluded, Keeps P (ctx.solve part.slots excluded))
    (hrest : ∀ excluded, Keeps P (ctx.solve rest excluded))
    (hboth : ∀ excluded, Keeps P (ctx.solve (rest ++ part.slots) excluded)) (excluded : NameSet) :
    Keeps P (ctx.solveChoice slot part rest excluded) := by
  rw [solveChoice]
  split_ifs with hfree
  · exact (solveBelow_keeps hcache hbelow excluded).bind fun _ _ =>
      (hrest excluded).bind fun _ _ => Meets.pure trivial
  · exact (hboth _).bind fun _ _ => Meets.pure trivial

omit hcache in
theorem solveAmong_keeps {slot : Slot} {rest : List Slot} {excluded : NameSet} (cs : List Part)
    (hchoice : ∀ c ∈ cs, Keeps P (ctx.solveChoice slot c rest excluded)) (best : Solution) :
    Keeps P (ctx.solveAmong slot cs rest excluded best) := by
  induction cs generalizing best with
  | nil =>
    rw [solveAmong]
    exact Meets.pure trivial
  | cons c cs ih =>
    have ih := ih fun d hd => hchoice d (List.mem_cons_of_mem _ hd)
    rw [solveAmong]
    split_ifs with hex
    · exact ih best
    · exact (hchoice c List.mem_cons_self).bind fun option _ => ih _

/-- The recursion keeps what the cache keeps. -/
theorem solve_keeps (slots : List Slot) : ∀ excluded, Keeps P (ctx.solve slots excluded) := by
  induction slots using Slot.induct_work with
  | nil =>
    intro excluded
    rw [solve]
    exact Meets.pure trivial
  | cons slot rest ihr ihc =>
    intro excluded
    rw [solve]
    refine keeps_known?.bind fun found _ => ?_
    rcases found with _ | solution
    · refine keeps_count.bind fun _ _ => (ihr excluded).bind fun skipped _ => ?_
      refine (solveAmong_keeps slot.candidates (fun c hc => ?_) _).bind fun best _ =>
        keeps_remember.bind fun _ _ => Meets.pure trivial
      exact solveChoice_keeps hcache (ihc c hc).1 ihr (ihc c hc).2 excluded
    · exact keeps_count.bind fun _ _ => Meets.pure trivial

end

end SearchContext

/-- **A search touches its cache only**: it keeps what the calls of the cache keep, and what it
returns is a build on the tree for the stat. -/
theorem CandidateTree.search_keeps {tree : CandidateTree} {stat : Stat} {excluded : NameSet}
    {cache : Option (CacheAccess σ)} (hcache : ∀ a, cache = some a → a.Keeps P) {memory : σ}
    (hmem : P memory) :
    P ((tree.search stat excluded cache).run memory).2 ∧
      ∀ outcome, ((tree.search stat excluded cache).run memory).1 = .ok outcome →
        ∃ best, outcome.result = tree.resultOf stat best := by
  by_cases hb : tree.blocked excluded = []
  · have hctx : ∀ a, (if tree.Cacheable then cache else none) = some a → a.Keeps P := by
      intro a ha
      split_ifs at ha
      exact hcache a ha
    have hsolve := @SearchContext.solve_keeps σ P
      ⟨tree, stat, if tree.Cacheable then cache else none⟩ hctx tree.root.slots excluded
      ⟨∅, ⟨0, 0, 0, 0⟩, memory⟩ hmem
    unfold search
    rw [if_pos (List.isEmpty_iff.mpr hb), ExceptT.run_mk]
    rcases hrun : (SearchContext.solve ⟨tree, stat, if tree.Cacheable then cache else none⟩
      tree.root.slots excluded).run ⟨∅, ⟨0, 0, 0, 0⟩, memory⟩ with ⟨e | solution, final⟩
    · rw [hrun] at hsolve
      exact ⟨hsolve.2, fun outcome h => absurd h nofun⟩
    · rw [hrun] at hsolve
      refine ⟨hsolve.2, fun outcome h => ⟨solution, ?_⟩⟩
      obtain rfl := Except.ok.inj h
      rfl
  · rw [search_of_blocked hb]
    exact ⟨hmem, fun outcome h => absurd h nofun⟩

/-- The store has the tables of another one, except perhaps the isolated solutions. -/
def Store.SameButIsolated (s s' : Store) : Prop := ∀ t, t ≠ .isolated → s'.rows? t = s.rows? t

/-- The cache of the library writes the table of isolated solutions only. -/
theorem Cache.keeps_access (start : Store) :
    Cache.access.Keeps fun s : Store × Cache => start.SameButIsolated s.1 where
  get := by
    rintro id stat c ⟨store, version, stats, entries⟩ hs
    show start.SameButIsolated (Cache.get id stat c (store, ⟨version, stats, entries⟩)).2.1
    cases entries with
    | some entries => exact hs
    | none =>
      simp only [Cache.get]
      split <;> exact hs
  set := by
    rintro c entry ⟨store, version, stats, entries⟩ hs
    show start.SameButIsolated (Cache.set c entry (store, ⟨version, stats, entries⟩)).2.1
    cases entries with
    | some entries => exact hs
    | none =>
      have hwrite : ∀ t, t ≠ .isolated →
          (Transaction.call (.setIsolated c.levels version entry) store).2.rows? t =
            store.rows? t :=
        fun t ht => (Transaction.onlyWrites_setIsolated c.levels version entry).call store ht
      simp only [Cache.set]
      rcases hrun : Transaction.call (.setIsolated c.levels version entry) store with ⟨e | u, store'⟩
      · rw [hrun] at hwrite
        exact fun t ht => (hwrite t ht).trans (hs t ht)
      · rw [hrun] at hwrite
        exact fun t ht => (hwrite t ht).trans (hs t ht)

end Gunsmith
