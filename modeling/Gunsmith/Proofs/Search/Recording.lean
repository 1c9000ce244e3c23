/-
  Caches that say what a search does with them.

  A search looks at its cache through the answers to its calls only.  So if one memory shows
  another, and the calls on both have the same answers (`CacheAccess.Shows`), then a search
  does the same on both, step by step (`CandidateTree.search_shows`).

  A cache can be made to record what is entered (`CacheAccess.recorded`): its memory shows
  the memory that it would have otherwise.  So a search on a recording cache is a search on
  the cache itself, and the record lists what this search enters.
-/
import Gunsmith.Proofs.Search.Untouched

namespace Gunsmith

variable {σ τ α β : Type}

/-! ### Memories that show others -/

/-- The memory of the one cache shows that of the other: calls have the same answers, and what they
leave shows what they leave. -/
structure CacheAccess.Shows (f : σ → τ) (a : CacheAccess σ) (b : CacheAccess τ) : Prop where
  get : ∀ id stat c s, b.get id stat c (f s) = ((a.get id stat c s).1, f (a.get id stat c s).2)
  set : ∀ c entry s, b.set c entry (f s) = ((a.set c entry s).1, f (a.set c entry s).2)

/-- What a search carries along, with another memory of the cache. -/
def Progress.map (f : σ → τ) (s : Progress σ) : Progress τ := ⟨s.memo, s.stats, f s.cache⟩

namespace Searching

variable {f : σ → τ}

/-- The steps have the same results, and what the ones leave shows what the others leave. -/
def Shows (f : σ → τ) (x : Searching σ α) (y : Searching τ α) : Prop :=
  ∀ s, y.run (s.map f) = ((x.run s).1, (x.run s).2.map f)

theorem Shows.pure {a : α} : Shows f (pure a) (pure a) := fun _ => rfl

theorem Shows.bind {x : Searching σ α} {y : Searching τ α} {g : α → Searching σ β}
    {h : α → Searching τ β} (hxy : Shows f x y) (hgh : ∀ a, Shows f (g a) (h a)) :
    Shows f (x >>= g) (y >>= h) := by
  intro s
  rw [run_bind_state, run_bind_state, hxy s]
  rcases x.run s with ⟨e | a, s'⟩
  · rfl
  · exact hgh a s'

theorem shows_count {g : SearchStats → SearchStats} : Shows f (count g) (count g) := fun _ => rfl

theorem shows_known? {key : Subproblem} : Shows f (known? key) (known? key) := fun _ => rfl

theorem shows_remember {key : Subproblem} {solution : Solution} :
    Shows f (remember key solution) (remember key solution) := fun _ => rfl

theorem shows_onCache {call : StateM σ (Except StoreError α)}
    {call' : StateM τ (Except StoreError α)}
    (h : ∀ s, call' (f s) = ((call s).1, f (call s).2)) :
    Shows f (onCache call) (onCache call') := by
  intro s
  have hcall : call' (s.map f).cache = ((call s.cache).1, f (call s.cache).2) := h s.cache
  rw [run_onCache, run_onCache, hcall]
  rfl

end Searching

open Searching

/-! ### Searches on them -/

namespace SearchContext

variable {f : σ → τ} {tree : CandidateTree} {stat : Stat} {cache : Option (CacheAccess σ)}
  {cache' : Option (CacheAccess τ)}

/-- Whatever is excluded, the slots are solved alike on both memories. -/
def SolvesAlike (f : σ → τ) (ctx : SearchContext σ) (ctx' : SearchContext τ)
    (slots : List Slot) : Prop :=
  ∀ excluded, Shows f (ctx.solve slots excluded) (ctx'.solve slots excluded)

section

variable (hcache : Option.Rel (CacheAccess.Shows f) cache cache')

include hcache

theorem solveBelow_shows {part : Part}
    (hbelow : SolvesAlike f ⟨tree, stat, cache⟩ ⟨tree, stat, cache'⟩ part.slots)
    (excluded : NameSet) :
    Shows f (solveBelow ⟨tree, stat, cache⟩ part excluded)
      (solveBelow ⟨tree, stat, cache'⟩ part excluded) := by
  have hplain : Shows f (do return withOwn part (← solve ⟨tree, stat, cache⟩ part.slots excluded))
      (do return withOwn part (← solve ⟨tree, stat, cache'⟩ part.slots excluded)) :=
    (hbelow excluded).bind fun _ => Shows.pure
  rw [solveBelow, solveBelow]
  cases hcache with
  | none => exact hplain
  | @some a b hab =>
    have hstore : Shows f (solveAndStore ⟨tree, stat, some a⟩ a part)
        (solveAndStore ⟨tree, stat, some b⟩ b part) := by
      rw [solveAndStore, solveAndStore]
      refine shows_count.bind fun _ => (hbelow ∅).bind fun solution => ?_
      exact (shows_onCache (hab.set _ _)).bind fun _ => Shows.pure
    dsimp only
    -- Whether the cache is asked at all depends on the item and on what is excluded only.
    split_ifs with htouch
    · exact hplain
    · refine (shows_onCache (hab.get _ _ _)).bind fun found => ?_
      rcases found with _ | entry
      · exact hstore
      · dsimp only
        split_ifs
        · exact shows_count.bind fun _ => Shows.pure
        · exact hstore

theorem solveChoice_shows {slot : Slot} {part : Part} {rest : List Slot}
    (hbelow : SolvesAlike f ⟨tree, stat, cache⟩ ⟨tree, stat, cache'⟩ part.slots)
    (hrest : SolvesAlike f ⟨tree, stat, cache⟩ ⟨tree, stat, cache'⟩ rest)
    (hboth : SolvesAlike f ⟨tree, stat, cache⟩ ⟨tree, stat, cache'⟩ (rest ++ part.slots))
    (excluded : NameSet) :
    Shows f (solveChoice ⟨tree, stat, cache⟩ slot part rest excluded)
      (solveChoice ⟨tree, stat, cache'⟩ slot part rest excluded) := by
  rw [solveChoice, solveChoice]
  dsimp only
  split_ifs with hfree
  · exact (solveBelow_shows hcache hbelow excluded).bind fun _ =>
      (hrest excluded).bind fun _ => Shows.pure
  · exact (hboth _).bind fun _ => Shows.pure

omit hcache in
theorem solveAmong_shows {slot : Slot} {rest : List Slot} {excluded : NameSet} (cs : List Part)
    (hchoice : ∀ c ∈ cs, Shows f (solveChoice ⟨tree, stat, cache⟩ slot c rest excluded)
      (solveChoice ⟨tree, stat, cache'⟩ slot c rest excluded)) (best : Solution) :
    Shows f (solveAmong ⟨tree, stat, cache⟩ slot cs rest excluded best)
      (solveAmong ⟨tree, stat, cache'⟩ slot cs rest excluded best) := by
  induction cs generalizing best with
  | nil =>
    rw [solveAmong, solveAmong]
    exact Shows.pure
  | cons c cs ih =>
    have ih := ih fun d hd => hchoice d (List.mem_cons_of_mem _ hd)
    rw [solveAmong, solveAmong]
    split_ifs with hex
    · exact ih best
    · exact (hchoice c List.mem_cons_self).bind fun option => ih _

/-- The recursion does the same on both memories. -/
theorem solve_shows (slots : List Slot) :
    SolvesAlike f ⟨tree, stat, cache⟩ ⟨tree, stat, cache'⟩ slots := by
  induction slots using Slot.induct_work with
  | nil =>
    intro excluded
    rw [solve, solve]
    exact Shows.pure
  | cons slot rest ihr ihc =>
    intro excluded
    rw [solve, solve]
    refine shows_known?.bind fun found => ?_
    rcases found with _ | solution
    · refine shows_count.bind fun _ => (ihr excluded).bind fun skipped => ?_
      refine (solveAmong_shows slot.candidates (fun c hc => ?_) _).bind fun best =>
        shows_remember.bind fun _ => Shows.pure
      exact solveChoice_shows hcache (ihc c hc).1 ihr (ihc c hc).2 excluded
    · exact shows_count.bind fun _ => Shows.pure

end

end SearchContext

/-- **A search sees the answers of its cache only**: on a memory that shows another one it returns
the same, and leaves what shows the same. -/
theorem CandidateTree.search_shows {f : σ → τ} {tree : CandidateTree} {stat : Stat}
    {excluded : NameSet} {a : CacheAccess σ} {b : CacheAccess τ} (h : a.Shows f b) (memory : σ) :
    (tree.search stat excluded (some b)).run (f memory) =
      (((tree.search stat excluded (some a)).run memory).1,
        f ((tree.search stat excluded (some a)).run memory).2) := by
  have hcache : Option.Rel (CacheAccess.Shows f) (if tree.Cacheable then some a else none)
      (if tree.Cacheable then some b else none) := by
    split_ifs
    · exact Option.Rel.some h
    · exact Option.Rel.none
  by_cases hb : tree.blocked excluded = []
  · let ctx : SearchContext σ := ⟨tree, stat, if tree.Cacheable then some a else none⟩
    let ctx' : SearchContext τ := ⟨tree, stat, if tree.Cacheable then some b else none⟩
    have hsolve : (ctx'.solve tree.root.slots excluded).run ⟨∅, ⟨0, 0, 0, 0⟩, f memory⟩ =
        (((ctx.solve tree.root.slots excluded).run ⟨∅, ⟨0, 0, 0, 0⟩, memory⟩).1,
          ((ctx.solve tree.root.slots excluded).run ⟨∅, ⟨0, 0, 0, 0⟩, memory⟩).2.map f) :=
      SearchContext.solve_shows hcache tree.root.slots excluded ⟨∅, ⟨0, 0, 0, 0⟩, memory⟩
    unfold search
    rw [if_pos (List.isEmpty_iff.mpr hb), if_pos (List.isEmpty_iff.mpr hb), ExceptT.run_mk,
      ExceptT.run_mk, hsolve]
    rfl
  · rw [search_of_blocked hb, search_of_blocked hb]

/-! ### Recording caches -/

namespace CacheAccess

/-- The cache, made to record what is entered, the last entry last. -/
def recorded (cache : CacheAccess σ) : CacheAccess (σ × List CacheEntry) where
  get id stat c := fun (s, entered) =>
    ((cache.get id stat c s).1, (cache.get id stat c s).2, entered)
  set c entry := fun (s, entered) =>
    ((cache.set c entry s).1, (cache.set c entry s).2, entered ++ [entry])

/-- A recording cache shows the cache. -/
theorem shows_recorded (cache : CacheAccess σ) : cache.recorded.Shows Prod.fst cache where
  get _ _ _ _ := rfl
  set _ _ _ := rfl

end CacheAccess

end Gunsmith
