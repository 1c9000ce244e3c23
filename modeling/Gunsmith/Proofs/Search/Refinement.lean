/-
  The table and the cache only save work.

  A search with a table and a cache is compared with the plain recursion `answer`.  The
  invariant is that everything in the table is as good as the plain answer to its
  sub-problem (`Memo.Sound`) and that the cache serves solutions as good as the plain ones
  (`CacheAccess.Serves`).  What "as good as" means is left open (`Solution.Congruence`):
  it may be equality, or equality of the sums.

  `Searching.Meets` is the form of all statements about steps of a search: started where
  the invariant holds, the steps end where it holds, with a result as promised, or with a
  failure of the kind that the cache may show.  There is one lemma for each step and one
  for each function of the search; `solve_meets` closes the recursion, by induction on the
  slots that are still to decide.

  The table is keyed by the addresses of slots, so all this needs that different slots of
  the tree have different addresses (`Part.DistinctAddresses`).
-/
import Gunsmith.Proofs.Search.Answer
import Gunsmith.Proofs.Tree.Expanded
import Mathlib.Data.List.Forall2

namespace Gunsmith

/-! ### Steps of a search -/

namespace Searching

variable {σ α β : Type} {inv : Progress σ → Prop} {err : EvalError → Prop}
  {post : α → Prop}

/-- Started where the invariant holds, the steps end where it holds, and their result is as
promised or they fail in an expected way. -/
def Meets (inv : Progress σ → Prop) (err : EvalError → Prop) (x : Searching σ α)
    (post : α → Prop) : Prop :=
  ∀ s, inv s → match x.run s with
    | (.ok a, s') => post a ∧ inv s'
    | (.error e, s') => err e ∧ inv s'

theorem Meets.pure {a : α} (h : post a) : Meets inv err (pure a) post :=
  fun _ hs => ⟨h, hs⟩

theorem Meets.bind {x : Searching σ α} {f : α → Searching σ β} {post₂ : β → Prop}
    (hx : Meets inv err x post) (hf : ∀ a, post a → Meets inv err (f a) post₂) :
    Meets inv err (x >>= f) post₂ := by
  intro s hs
  have hs' := hx s hs
  rw [run_bind_state]
  rcases hrun : x.run s with ⟨e | a, s'⟩
  · rw [hrun] at hs'
    exact hs'
  · rw [hrun] at hs'
    exact hf a hs'.1 s' hs'.2

end Searching

/-! ### Sub-problems -/

namespace Subproblem

instance : Std.TransCmp Subproblem.cmp :=
  inferInstanceAs (Std.TransCmp (compareLex (compareOn Prod.fst) (compareOn Prod.snd)))

instance : Std.LawfulEqCmp Subproblem.cmp where
  eq_of_compare {a b} h := by
    obtain ⟨h₁, h₂⟩ := compareLex_eq_eq.mp h
    exact Prod.ext (Std.LawfulEqOrd.eq_of_compare h₁) (Std.LawfulEqOrd.eq_of_compare h₂)

end Subproblem

/-- **Sub-problems have one key each**: slots in the same places with the same exclusions. -/
theorem Subproblem.of_inj {root : Part} (hd : root.DistinctAddresses) {slots slots' : List Slot}
    (hs : slots ⊆ root.allSlots) (hs' : slots' ⊆ root.allSlots) {excluded excluded' : NameSet} :
    Subproblem.of slots excluded = Subproblem.of slots' excluded' ↔
      slots = slots' ∧ excluded = excluded' := by
  constructor
  · intro h
    obtain ⟨haddr, hex⟩ := Prod.mk.inj h
    refine ⟨?_, NameSet.ext_mem fun x => ?_⟩
    · exact hd.slots_inj hs hs' haddr
    · rw [← NameSet.mem_toList, hex, NameSet.mem_toList]
  · rintro ⟨rfl, rfl⟩
    rfl

/-! ### What is kept -/

namespace Solution

/-- Solutions that need not be told apart: the relation respects all that is done with them. -/
structure Congruence (R : Solution → Solution → Prop) : Prop where
  refl : ∀ a, R a a
  sums_eq : ∀ {a b}, R a b → a.sums = b.sums
  prepend : ∀ {selection own as bs}, List.Forall₂ R as bs →
    R (prepend selection own as) (prepend selection own bs)
  withOwn : ∀ {part a b}, R a b →
    R (SearchContext.withOwn part a) (SearchContext.withOwn part b)

theorem congruence_eq : Congruence (· = ·) where
  refl _ := rfl
  sums_eq h := congrArg sums h
  prepend {_ _ as bs} h := by
    have hab : as = bs := by rwa [List.forall₂_eq_eq_eq] at h
    rw [hab]
  withOwn h := congrArg _ h

theorem congruence_sums : Congruence fun a b => a.sums = b.sums where
  refl _ := rfl
  sums_eq h := h
  prepend {selection own as bs} h := by
    show as.foldl _ own = bs.foldl _ own
    induction h generalizing own with
    | nil => rfl
    | cons hab _ ih =>
      rw [List.foldl_cons, List.foldl_cons, hab]
      exact ih
  withOwn h := congrArg (· + _) h

variable {R : Solution → Solution → Prop} {a a' b b' : Solution}

theorem Congruence.better_iff (hR : Congruence R) (stat : Stat) (ha : R a a') (hb : R b b') :
    a.Better stat b ↔ a'.Better stat b' := by
  unfold Better
  rw [hR.sums_eq ha, hR.sums_eq hb]

end Solution

/-- The isolated solution of an item: the best way to fill the slots below it with nothing excluded,
the item itself counted in. -/
def isolated (m : ConflictMap) (stat : Stat) (part : Part) : Solution :=
  SearchContext.withOwn part (answer m stat part.slots ∅)

/-- Everything in the table is as good as the plain answer to its sub-problem. -/
def Memo.Sound (memo : Memo) (tree : CandidateTree) (stat : Stat)
    (R : Solution → Solution → Prop) : Prop :=
  ∀ slots excluded, slots ⊆ tree.root.allSlots → ∀ solution,
    memo[Subproblem.of slots excluded]? = some solution →
      R solution (answer tree.conflicts stat slots excluded)

/-- Made where the invariant holds, the call on a cache ends where it holds, and its answer is as
promised or it fails in an expected way. -/
def CacheAccess.CallMeets {σ α : Type} (inv : σ → Prop) (err : StoreError → Prop)
    (call : StateM σ (Except StoreError α)) (post : α → Prop) : Prop :=
  ∀ s, inv s → match call s with
    | (.ok a, s') => post a ∧ inv s'
    | (.error e, s') => err e ∧ inv s'

/-- The cache serves solutions as good as the isolated ones: while the invariant of its memory
holds, it answers with nothing else, and it keeps the invariant when it is given such solutions. -/
structure CacheAccess.Serves {σ : Type} (cache : CacheAccess σ) (tree : CandidateTree) (stat : Stat)
    (R : Solution → Solution → Prop) (inv : σ → Prop) (err : StoreError → Prop) : Prop where
  get : ∀ part, tree.root.Attached part → part.conflictFree tree.conflicts = true →
    CallMeets inv err (cache.get part.id stat tree.constraints) fun found =>
      ∀ entry, found = some entry →
        R ⟨entry.sums, entry.selections⟩ (isolated tree.conflicts stat part)
  set : ∀ part, tree.root.Attached part → part.conflictFree tree.conflicts = true →
    ∀ solution, R solution (isolated tree.conflicts stat part) →
      CallMeets inv err
        (cache.set tree.constraints ⟨part.id, stat, solution.sums, solution.selections⟩)
        fun _ => True

theorem Memo.sound_empty {tree : CandidateTree} {stat : Stat} {R : Solution → Solution → Prop} :
    Memo.Sound ∅ tree stat R := by
  intro slots excluded _ solution h
  rw [Std.TreeMap.getElem?_emptyc] at h
  exact absurd h (Option.some_ne_none solution).symm

/-- The table may learn what is as good as the plain answer. -/
theorem Memo.Sound.insert {memo : Memo} {tree : CandidateTree} {stat : Stat}
    {R : Solution → Solution → Prop} (h : memo.Sound tree stat R)
    (hd : tree.root.DistinctAddresses) {slots : List Slot} {excluded : NameSet}
    (hs : slots ⊆ tree.root.allSlots) {solution : Solution}
    (hR : R solution (answer tree.conflicts stat slots excluded)) :
    Memo.Sound (memo.insert (Subproblem.of slots excluded) solution) tree stat R := by
  intro slots' excluded' hs' solution' hget
  rw [Std.TreeMap.getElem?_insert] at hget
  split_ifs at hget with heq
  · obtain ⟨rfl, rfl⟩ := (Subproblem.of_inj hd hs hs').mp (Std.LawfulEqCmp.eq_of_compare heq)
    rw [← Option.some.inj hget]
    exact hR
  · exact h slots' excluded' hs' solution' hget

/-! ### The search -/

namespace SearchContext

open Searching

variable {σ : Type} {ctx : SearchContext σ} {R : Solution → Solution → Prop} {inv : σ → Prop}
  {err : StoreError → Prop}

/-- The invariant of a search. -/
def Kept (ctx : SearchContext σ) (R : Solution → Solution → Prop) (inv : σ → Prop)
    (s : Progress σ) : Prop :=
  s.memo.Sound ctx.tree ctx.stat R ∧ inv s.cache

/-- Failures of the cache that are passed on. -/
def Passed (err : StoreError → Prop) (e : EvalError) : Prop := ∃ e', err e' ∧ e = .cache e'

/-- Whatever is excluded, the slots are solved as well as by the plain recursion. -/
def Solves (ctx : SearchContext σ) (R : Solution → Solution → Prop) (inv : σ → Prop)
    (err : StoreError → Prop) (slots : List Slot) : Prop :=
  ∀ excluded, Meets (ctx.Kept R inv) (Passed err) (ctx.solve slots excluded)
    fun solution => R solution (answer ctx.tree.conflicts ctx.stat slots excluded)

section Steps

variable {post : Option Solution → Prop} {key : Subproblem}

theorem meets_count {f : SearchStats → SearchStats} :
    Meets (ctx.Kept R inv) (Passed err) (count f) fun _ => True :=
  fun _ hs => ⟨trivial, hs⟩

theorem meets_known? (h : ∀ memo : Memo, memo.Sound ctx.tree ctx.stat R → post memo[key]?) :
    Meets (ctx.Kept R inv) (Passed err) (known? key) post :=
  fun _ hs => ⟨h _ hs.1, hs⟩

theorem meets_remember {solution : Solution}
    (h : ∀ memo : Memo, memo.Sound ctx.tree ctx.stat R →
      Memo.Sound (memo.insert key solution) ctx.tree ctx.stat R) :
    Meets (ctx.Kept R inv) (Passed err) (remember key solution) fun _ => True :=
  fun _ hs => ⟨trivial, h _ hs.1, hs.2⟩

/-- A call on the cache leaves the table alone, and its failures are passed on. -/
theorem meets_onCache {α : Type} {call : StateM σ (Except StoreError α)} {post : α → Prop}
    (h : CacheAccess.CallMeets inv err call post) :
    Meets (ctx.Kept R inv) (Passed err) (onCache call) post := by
  intro s hs
  have hcall := h s.cache hs.2
  rcases hc : call s.cache with ⟨e | a, s'⟩
  · rw [hc] at hcall
    have hrun : (onCache call).run s = (.error (.cache e), { s with cache := s' }) := by
      unfold onCache
      rw [ExceptT.run_mk, hc]
      rfl
    rw [hrun]
    exact ⟨⟨e, hcall.1, rfl⟩, hs.1, hcall.2⟩
  · rw [hc] at hcall
    have hrun : (onCache call).run s = (.ok a, { s with cache := s' }) := by
      unfold onCache
      rw [ExceptT.run_mk, hc]
      rfl
    rw [hrun]
    exact ⟨hcall.1, hs.1, hcall.2⟩

end Steps

section Functions

variable (hR : Solution.Congruence R)
  (hcache : ∀ cache, ctx.cache = some cache → cache.Serves ctx.tree ctx.stat R inv err)

include hR hcache

theorem solveAndStore_meets {cache : CacheAccess σ} (hc : ctx.cache = some cache) {part : Part}
    (ha : ctx.tree.root.Attached part) (hfree : part.conflictFree ctx.tree.conflicts = true)
    (hbelow : ctx.Solves R inv err part.slots) :
    Meets (ctx.Kept R inv) (Passed err) (ctx.solveAndStore cache part)
      fun solution => R solution (isolated ctx.tree.conflicts ctx.stat part) := by
  rw [solveAndStore]
  refine meets_count.bind fun _ _ => (hbelow ∅).bind fun solution hsol => ?_
  have hown : R (withOwn part solution) (isolated ctx.tree.conflicts ctx.stat part) :=
    hR.withOwn hsol
  have hset := (hcache cache hc).set part ha hfree _ hown
  refine (meets_onCache hset).bind fun _ _ => Meets.pure hown

theorem solveBelow_meets {part : Part} (ha : ctx.tree.root.Attached part)
    (hfree : part.conflictFree ctx.tree.conflicts = true)
    (hbelow : ctx.Solves R inv err part.slots) (excluded : NameSet) :
    Meets (ctx.Kept R inv) (Passed err) (ctx.solveBelow part excluded)
      fun solution => R solution
        (withOwn part (answer ctx.tree.conflicts ctx.stat part.slots excluded)) := by
  have hplain : Meets (ctx.Kept R inv) (Passed err)
      (do return withOwn part (← ctx.solve part.slots excluded))
      fun solution => R solution
        (withOwn part (answer ctx.tree.conflicts ctx.stat part.slots excluded)) :=
    (hbelow excluded).bind fun solution hsol => Meets.pure (hR.withOwn hsol)
  rw [solveBelow]
  split
  · exact hplain
  · next cache hc =>
    split_ifs with ht
    · exact hplain
    · -- Nothing below is excluded, so the answer is the isolated one.
      have hiso : answer ctx.tree.conflicts ctx.stat part.slots excluded =
          answer ctx.tree.conflicts ctx.stat part.slots ∅ := by
        refine answer_congr _ fun s hs c hc id hid => ?_
        have hnot : id ∉ excluded := by
          intro hex
          apply ht
          unfold touches
          rw [List.any_eq_true]
          exact ⟨id, Part.mem_ids_of_candidate hs hc hid, decide_eq_true hex⟩
        exact ⟨fun h => absurd h hnot, fun h => absurd h (NameSet.not_mem_empty _)⟩
      rw [hiso]
      have hstore := solveAndStore_meets hR hcache hc ha hfree hbelow
      refine (meets_onCache ((hcache cache hc).get part ha hfree)).bind fun found hfound => ?_
      rcases found with _ | entry
      · exact hstore
      · -- An entry that mounts something excluded is computed anew, with the same right.
        dsimp only
        split_ifs
        · exact meets_count.bind fun _ _ => Meets.pure (hfound entry rfl)
        · exact hstore

theorem solveChoice_meets {slot : Slot} {part : Part} {rest : List Slot}
    (ha : ctx.tree.root.Attached part) (hbelow : ctx.Solves R inv err part.slots)
    (hrest : ctx.Solves R inv err rest) (hboth : ctx.Solves R inv err (rest ++ part.slots))
    (excluded : NameSet) :
    Meets (ctx.Kept R inv) (Passed err) (ctx.solveChoice slot part rest excluded)
      fun solution => R solution
        (answerChoice ctx.tree.conflicts ctx.stat slot part rest excluded) := by
  rw [solveChoice]
  by_cases hfree : part.conflictFree ctx.tree.conflicts = true
  · rw [answerChoice_of_free hfree]
    rw [if_pos hfree]
    refine (solveBelow_meets hR hcache ha hfree hbelow excluded).bind fun below hb =>
      (hrest excluded).bind fun others ho => Meets.pure (hR.prepend ?_)
    exact List.Forall₂.cons hb (List.Forall₂.cons ho List.Forall₂.nil)
  · rw [answerChoice_of_not_free hfree]
    rw [if_neg hfree]
    refine (hboth _).bind fun others ho => Meets.pure (hR.prepend ?_)
    exact List.Forall₂.cons ho List.Forall₂.nil

omit hcache in
theorem solveAmong_meets {slot : Slot} {rest : List Slot} {excluded : NameSet} (cs : List Part)
    (hchoice : ∀ c ∈ cs, Meets (ctx.Kept R inv) (Passed err)
      (ctx.solveChoice slot c rest excluded) fun solution => R solution
        (answerChoice ctx.tree.conflicts ctx.stat slot c rest excluded))
    {best best' : Solution} (hbest : R best best') :
    Meets (ctx.Kept R inv) (Passed err) (ctx.solveAmong slot cs rest excluded best)
      fun solution => R solution
        (answerAmong ctx.tree.conflicts ctx.stat slot cs rest excluded best') := by
  induction cs generalizing best best' with
  | nil =>
    rw [solveAmong, answerAmong]
    exact Meets.pure hbest
  | cons c cs ih =>
    have ih := fun {b b'} => @ih (fun d hd => hchoice d (List.mem_cons_of_mem _ hd)) b b'
    rw [solveAmong, answerAmong]
    split_ifs with hex
    · exact ih hbest
    · refine (hchoice c List.mem_cons_self).bind fun option hopt => ih ?_
      have hiff := hR.better_iff ctx.stat hopt hbest
      split_ifs with h h' h'
      · exact hopt
      · exact absurd (hiff.mp h) h'
      · exact absurd (hiff.mpr h') h
      · exact hbest

/-- **The search refines the plain recursion**: it solves the slots as well as `answer` does. -/
theorem solve_meets (hd : ctx.tree.root.DistinctAddresses) (slots : List Slot) :
    slots ⊆ ctx.tree.root.allSlots → ctx.Solves R inv err slots := by
  induction slots using Slot.induct_work with
  | nil =>
    intro _ excluded
    rw [solve, answer_nil]
    exact Meets.pure (hR.refl _)
  | cons slot rest ihr ihc =>
    intro hs excluded
    obtain ⟨hslot, hrest⟩ := List.cons_subset.mp hs
    have hsolve := ihr hrest
    rw [solve]
    have hknown : Meets (ctx.Kept R inv) (Passed err)
        (known? (Subproblem.of (slot :: rest) excluded)) fun found =>
          ∀ solution, found = some solution →
            R solution (answer ctx.tree.conflicts ctx.stat (slot :: rest) excluded) :=
      meets_known? fun memo h => h _ _ hs
    refine hknown.bind fun found hfound => ?_
    rcases found with _ | solution
    · -- Not in the table: the empty choice is the first incumbent, and the winner is entered.
      refine meets_count.bind fun _ _ => (hsolve excluded).bind fun skipped hskip => ?_
      have hnone : R (.prepend (slot.select none) 0 [skipped])
          (.prepend (slot.select none) 0
            [answer ctx.tree.conflicts ctx.stat rest excluded]) :=
        hR.prepend (List.Forall₂.cons hskip List.Forall₂.nil)
      refine (solveAmong_meets hR slot.candidates (fun c hc => ?_) hnone).bind
        fun best hbest => ?_
      · have ha : ctx.tree.root.Attached c := ⟨slot, hslot, hc⟩
        have hbelow : c.slots ⊆ ctx.tree.root.allSlots := fun s hsc =>
          Part.mem_allSlots_of_candidate hslot hc (Part.mem_allSlots_of_mem_slots hsc)
        exact solveChoice_meets hR hcache ha ((ihc c hc).1 hbelow) hsolve
          ((ihc c hc).2 (List.append_subset.mpr ⟨hrest, hbelow⟩)) excluded
      · rw [← answer_cons] at hbest
        refine (meets_remember fun memo h => h.insert hd hs hbest).bind fun _ _ =>
          Meets.pure hbest
    · exact meets_count.bind fun _ _ => Meets.pure (hfound solution rfl)

end Functions

end SearchContext

namespace CandidateTree

open SearchContext

variable {σ : Type} {tree : CandidateTree} {stat : Stat} {excluded : NameSet}
  {cache : Option (CacheAccess σ)}

/-- A search that excludes what the pruning relies on is refused, whatever the cache. -/
theorem search_of_blocked (hb : tree.blocked excluded ≠ []) (memory : σ) :
    (tree.search stat excluded cache).run memory =
      (.error (refusal (tree.blocked excluded)), memory) := by
  unfold search
  rw [if_neg]
  · rfl
  · rw [List.isEmpty_iff]
    exact hb

/-- A search on a tree ends with the build of a solution as good as the plain answer, or with a
failure of the cache. -/
theorem search_meets {R : Solution → Solution → Prop} {inv : σ → Prop} {err : StoreError → Prop}
    (hd : tree.root.DistinctAddresses) (hR : Solution.Congruence R)
    (hcache : tree.Cacheable → ∀ a, cache = some a → a.Serves tree stat R inv err)
    (hb : tree.blocked excluded = []) {memory : σ} (hmem : inv memory) :
    match (tree.search stat excluded cache).run memory with
    | (.ok outcome, memory') =>
      (∃ solution, R solution (answer tree.conflicts stat tree.root.slots excluded) ∧
        outcome.result = tree.resultOf stat solution) ∧ inv memory'
    | (.error e, memory') => Passed err e ∧ inv memory' := by
  have hctx : ∀ a, (if tree.Cacheable then cache else none) = some a →
      a.Serves tree stat R inv err := by
    intro a ha
    split_ifs at ha with hcacheable
    exact hcache hcacheable a ha
  have hsolves : (⟨tree, stat, if tree.Cacheable then cache else none⟩ : SearchContext σ).Solves
      R inv err tree.root.slots :=
    solve_meets hR hctx hd _ fun _ hs => Part.mem_allSlots_of_mem_slots hs
  have hsolve := hsolves excluded ⟨∅, ⟨0, 0, 0, 0⟩, memory⟩ ⟨Memo.sound_empty, hmem⟩
  unfold search
  rw [if_pos (List.isEmpty_iff.mpr hb), ExceptT.run_mk]
  rcases hrun : (SearchContext.solve ⟨tree, stat, if tree.Cacheable then cache else none⟩
    tree.root.slots excluded).run ⟨∅, ⟨0, 0, 0, 0⟩, memory⟩ with ⟨e | solution, final⟩
  · rw [hrun] at hsolve
    exact ⟨hsolve.1, hsolve.2.2⟩
  · rw [hrun] at hsolve
    exact ⟨⟨solution, hsolve.1, rfl⟩, hsolve.2.2⟩

/-- **Without a cache** a search returns the build of the plain answer. -/
theorem search_none (hd : tree.root.DistinctAddresses) (stat : Stat)
    (hb : tree.blocked excluded = []) (memory : σ) :
    ∃ stats, (tree.search stat excluded (none : Option (CacheAccess σ))).run memory =
      (.ok ⟨tree.resultOf stat (answer tree.conflicts stat tree.root.slots excluded), stats⟩,
        memory) := by
  have hserves : tree.Cacheable → ∀ a, (none : Option (CacheAccess σ)) = some a →
      a.Serves tree stat (· = ·) (· = memory) fun _ => False :=
    fun _ _ ha => absurd ha nofun
  have h := search_meets hd Solution.congruence_eq hserves hb rfl
  rcases hrun : (tree.search stat excluded (none : Option (CacheAccess σ))).run memory with
    ⟨e | outcome, memory'⟩
  · rw [hrun] at h
    obtain ⟨⟨_, hfalse, -⟩, -⟩ := h
    exact hfalse.elim
  · rw [hrun] at h
    obtain ⟨⟨solution, rfl, hres⟩, rfl⟩ := h
    exact ⟨outcome.stats, by rw [← hres]⟩

/-- What a search without a cache returned is the build of the plain answer, and nothing was
excluded that the pruning relies on. -/
theorem search_none_ok (hd : tree.root.DistinctAddresses) {memory memory' : σ}
    {outcome : SearchOutcome}
    (h : (tree.search stat excluded (none : Option (CacheAccess σ))).run memory =
      (.ok outcome, memory')) :
    tree.blocked excluded = [] ∧
      outcome.result =
        tree.resultOf stat (answer tree.conflicts stat tree.root.slots excluded) := by
  by_cases hb : tree.blocked excluded = []
  · obtain ⟨stats, hrun⟩ := search_none hd stat hb memory
    rw [hrun] at h
    obtain ⟨hok, -⟩ := Prod.mk.inj h
    rw [← Except.ok.inj hok]
    exact ⟨hb, rfl⟩
  · rw [search_of_blocked hb] at h
    exact absurd (Prod.mk.inj h).1 nofun

end CandidateTree

end Gunsmith
