/-
  A search with a numbered table is the search.

  The two are run side by side (`Solving.Follows`): where the course of the one is that of the
  other, the steps of both have the same result, and the course of the one is that of the other
  afterwards.  Along with this goes what calls the steps have made (`Made`), so there is one rule
  for each function of the search, and `follows_solve` closes the recursion, by induction on the
  depth to which calls may be nested: it suffices that this is more than there are slots.

  Then a whole search on a tree solves every sub-problem that it comes to once
  (`Course.SolvedOnce`).
-/
import Gunsmith.Proofs.Search.Expansions
import Gunsmith.Proofs.Search.Transparency

namespace Gunsmith

open SearchCall

/-! ### Side by side -/

namespace Solving

variable {σ α β : Type} {m : ConflictMap} {calls calls' : List SearchCall} {x : Solving α}
  {y : Searching σ α}

/-- Started alike, the steps of a search with a numbered table end like those of the search, with
the same result, and have made the calls. -/
def Follows (m : ConflictMap) (calls : List SearchCall) (x : Solving α) (y : Searching σ α) :
    Prop :=
  ∀ t s, Course.Shows t s → ∃ a t' s' ls, x.run t = some (a, t') ∧ y.run s = (.ok a, s') ∧
    t'.Shows s' ∧ t.memo.Keeps t'.memo ∧ t'.lookups = t.lookups ++ ls ∧ Made m calls s s' ls

theorem Follows.pure {a : α} (h : ∀ call ∈ calls, ¬ call.Open) :
    Follows m calls (pure a : Solving α) (pure a : Searching σ α) :=
  fun t s hts => ⟨a, t, s, [], rfl, rfl, hts, .refl _, (List.append_nil _).symm, .idle h⟩

theorem Follows.bind {f : α → Solving β} {g : α → Searching σ β} (h : Follows m calls x y)
    (h' : ∀ a, Follows m calls' (f a) (g a)) : Follows m (calls ++ calls') (x >>= f) (y >>= g) := by
  intro t s hts
  obtain ⟨a, t', s', ls, hx, hy, hts', hkeeps, hls, hmade⟩ := h t s hts
  obtain ⟨b, t'', s'', ls', hf, hg, hts'', hkeeps', hls', hmade'⟩ := h' a t' s' hts'
  refine ⟨b, t'', s'', ls ++ ls', ?_, ?_, hts'', hkeeps.trans hkeeps', ?_, hmade.append hmade'⟩
  · rw [StateT.run_bind, hx]
    exact hf
  · rw [run_bind_state, hy]
    exact hg
  · rw [hls', hls, List.append_assoc]

/-- What is done with a result makes no calls. -/
theorem Follows.map {f : α → β} (h : Follows m calls x y) :
    Follows m calls (do return f (← x)) (do return f (← y)) := by
  have hbind := h.bind fun a => Follows.pure (a := f a) fun _ hc => absurd hc List.not_mem_nil
  rwa [List.append_nil] at hbind

section Functions

variable {tree : CandidateTree} {stat : Stat} {solves : SearchCall → Solving Solution}
  {slot : Slot} {part : Part} {rest : List Slot} {excluded : NameSet}

/-- The numbered search solves a call as the search without a cache does. -/
abbrev FollowsOn (σ : Type) (tree : CandidateTree) (stat : Stat)
    (solves : SearchCall → Solving Solution) (call : SearchCall) : Prop :=
  Follows tree.conflicts [call] (solves call)
    ((⟨tree, stat, none⟩ : SearchContext σ).solve call.slots call.excluded)

theorem follows_below (h : FollowsOn σ tree stat solves ⟨part.slots, excluded⟩) :
    Follows tree.conflicts [⟨part.slots, excluded⟩] (below solves part excluded)
      ((⟨tree, stat, none⟩ : SearchContext σ).solveBelow part excluded) := by
  rw [SearchContext.solveBelow]
  exact h.map

theorem follows_choose
    (h : ∀ call ∈ afterChoice tree.conflicts rest excluded part,
      FollowsOn σ tree stat solves call) :
    Follows tree.conflicts (afterChoice tree.conflicts rest excluded part)
      (choose tree.conflicts solves slot part rest excluded)
      ((⟨tree, stat, none⟩ : SearchContext σ).solveChoice slot part rest excluded) := by
  rw [SearchContext.solveChoice]
  unfold choose
  unfold afterChoice at h ⊢
  dsimp only
  split_ifs at h ⊢ with hfree
  · have hbelow := follows_below (h _ (List.mem_pair.mpr (Or.inl rfl)))
    have hothers := h _ (List.mem_pair.mpr (Or.inr rfl))
    exact hbelow.bind fun _ => hothers.map
  · exact (h _ (List.mem_singleton_self _)).map

theorem follows_chooseAmong (cs : List Part)
    (h : ∀ c ∈ cs, c.id ∉ excluded → ∀ call ∈ afterChoice tree.conflicts rest excluded c,
      FollowsOn σ tree stat solves call) (best : Solution) :
    Follows tree.conflicts
      ((cs.filter fun c => c.id ∉ excluded).flatMap (afterChoice tree.conflicts rest excluded))
      (chooseAmong tree.conflicts stat solves slot rest excluded cs best)
      ((⟨tree, stat, none⟩ : SearchContext σ).solveAmong slot cs rest excluded best) := by
  induction cs generalizing best with
  | nil =>
    rw [SearchContext.solveAmong]
    exact Follows.pure fun _ hc => absurd hc List.not_mem_nil
  | cons c cs ih =>
    have ih := ih fun d hd => h d (List.mem_cons_of_mem _ hd)
    rw [SearchContext.solveAmong, chooseAmong]
    by_cases hex : c.id ∈ excluded
    · rw [if_pos hex, if_pos hex, List.filter_cons_of_neg (by simpa using hex)]
      exact ih best
    · rw [if_neg hex, if_neg hex, List.filter_cons_of_pos (by simpa using hex),
        List.flatMap_cons]
      exact (follows_choose (h c List.mem_cons_self hex)).bind fun option => ih _

/-- The calls nested in a call are made one after the other. -/
theorem follows_nested
    (h : ∀ call ∈ nested tree.conflicts ⟨slot :: rest, excluded⟩,
      FollowsOn σ tree stat solves call) :
    Follows tree.conflicts (nested tree.conflicts ⟨slot :: rest, excluded⟩)
      (do
        let skipped ← solves ⟨rest, excluded⟩
        chooseAmong tree.conflicts stat solves slot rest excluded slot.candidates
          (.prepend (slot.select none) 0 [skipped]))
      (do
        let skipped ← (⟨tree, stat, none⟩ : SearchContext σ).solve rest excluded
        SearchContext.solveAmong ⟨tree, stat, none⟩ slot slot.candidates rest excluded
          (.prepend (slot.select none) 0 [skipped])) := by
  refine Follows.bind (h _ List.mem_cons_self) fun skipped => ?_
  refine follows_chooseAmong slot.candidates (fun c hc hex call hcall => h call ?_) _
  exact List.mem_cons_of_mem _
    (List.mem_flatMap.mpr ⟨c, Slot.mem_available.mpr ⟨hc, hex⟩, hcall⟩)

/-! ### One call -/

variable {t t₁ t₂ : Course} {depth : Nat} {k : Ticket} {solution : Solution}

theorem run_solve_of_found
    (h : t.lookUp ⟨slot :: rest, excluded⟩ =
      (⟨⟨slot :: rest, excluded⟩, k, some solution⟩, t₁)) :
    (solve m stat (depth + 1) ⟨slot :: rest, excluded⟩).run t =
      some (solution,
        { t₁ with stats := { t₁.stats with memoHits := t₁.stats.memoHits + 1 } }) := by
  rw [solve, lookUp, StateT.run_bind, StateT.run_modifyGet, h]
  rfl

theorem run_solve_of_new
    (h : t.lookUp ⟨slot :: rest, excluded⟩ = (⟨⟨slot :: rest, excluded⟩, k, none⟩, t₁))
    (hnested : StateT.run
      (do
        let skipped ← solve m stat depth ⟨rest, excluded⟩
        chooseAmong m stat (solve m stat depth) slot rest excluded slot.candidates
          (.prepend (slot.select none) 0 [skipped]))
      { t₁ with stats := { t₁.stats with visited := t₁.stats.visited + 1 } } =
        some (solution, t₂)) :
    (solve m stat (depth + 1) ⟨slot :: rest, excluded⟩).run t =
      some (solution, { t₂ with memo := t₂.memo.enter k solution }) := by
  rw [solve, lookUp, StateT.run_bind, StateT.run_modifyGet, h]
  have hgroup : (do
      let skipped ← solve m stat depth ⟨rest, excluded⟩
      let best ← chooseAmong m stat (solve m stat depth) slot rest excluded slot.candidates
        (.prepend (slot.select none) 0 [skipped])
      enter k best
      return best : Solving Solution).run
        { t₁ with stats := { t₁.stats with visited := t₁.stats.visited + 1 } } =
      some (solution, { t₂ with memo := t₂.memo.enter k solution }) := by
    rw [← bind_assoc, StateT.run_bind, hnested]
    rfl
  exact hgroup

end Functions

end Solving

namespace SearchContext

open Searching

variable {σ : Type} {ctx : SearchContext σ} {slot : Slot} {rest : List Slot} {excluded : NameSet}
  {s s' : Progress σ} {solution : Solution}

theorem run_solve_of_known
    (h : s.memo[Subproblem.of (slot :: rest) excluded]? = some solution) :
    (ctx.solve (slot :: rest) excluded).run s =
      (.ok solution, { s with stats := { s.stats with memoHits := s.stats.memoHits + 1 } }) := by
  have hknown : (known? (.of (slot :: rest) excluded)).run s = (.ok (some solution), s) := by
    rw [← h]
    rfl
  rw [solve, run_bind_state, hknown]
  rfl

theorem run_solve_of_unknown (h : s.memo[Subproblem.of (slot :: rest) excluded]? = none)
    (hnested : ExceptT.run
      (do
        let skipped ← ctx.solve rest excluded
        ctx.solveAmong slot slot.candidates rest excluded
          (.prepend (slot.select none) 0 [skipped]))
      { s with stats := { s.stats with visited := s.stats.visited + 1 } } = (.ok solution, s')) :
    (ctx.solve (slot :: rest) excluded).run s =
      (.ok solution,
        { s' with memo := s'.memo.insert (Subproblem.of (slot :: rest) excluded) solution }) := by
  have hknown : (known? (.of (slot :: rest) excluded)).run s = (.ok none, s) := by
    rw [← h]
    rfl
  have hgroup : ExceptT.run
      (do
        let skipped ← ctx.solve rest excluded
        let best ← ctx.solveAmong slot slot.candidates rest excluded
          (.prepend (slot.select none) 0 [skipped])
        remember (.of (slot :: rest) excluded) best
        return best)
      { s with stats := { s.stats with visited := s.stats.visited + 1 } } =
      (.ok solution,
        { s' with memo := s'.memo.insert (Subproblem.of (slot :: rest) excluded) solution }) := by
    rw [← bind_assoc, run_bind_state, hnested]
    rfl
  rw [solve, run_bind_state, hknown]
  exact hgroup

end SearchContext

namespace Solving

section Functions

variable {σ : Type} {tree : CandidateTree}

/-- **The numbered search follows the search**, if calls may be nested deeper than there are slots
to decide. -/
theorem follows_solve (hd : tree.root.DistinctAddresses) (stat : Stat) (depth : Nat) :
    ∀ call : SearchCall, call.size < depth → call.slots ⊆ tree.root.allSlots →
      FollowsOn σ tree stat (solve tree.conflicts stat depth) call := by
  induction depth with
  | zero => exact fun call h => absurd h (Nat.not_lt_zero _)
  | succ depth ih =>
    rintro ⟨_ | ⟨slot, rest⟩, excluded⟩ hsize hs
    · rw [FollowsOn, SearchContext.solve]
      refine Follows.pure fun call hcall => ?_
      rw [List.mem_singleton.mp hcall]
      exact fun h => h rfl
    -- Nested calls have less to decide, so the depth that is left suffices for them.
    have hnested := follows_nested fun sub hsub =>
      ih sub ((size_lt_of_mem_nested hsub).trans_le (Nat.le_of_lt_succ hsize))
        (slots_subset_of_mem_nested hs hsub)
    intro t s hts
    obtain ⟨k, t₁, hlookUp, hts₁, hkeeps₁, hk, hls₁⟩ :=
      Course.lookUp_spec hts ⟨slot :: rest, excluded⟩
    cases hmemo : s.memo[subproblem ⟨slot :: rest, excluded⟩]? with
    | some solution =>
      rw [hmemo] at hlookUp hls₁
      exact ⟨solution, _, _, _, run_solve_of_found hlookUp, SearchContext.run_solve_of_known hmemo,
        hts₁.count fun stats => { stats with memoHits := stats.memoHits + 1 }, hkeeps₁, hls₁,
        .hit (List.cons_ne_nil slot rest) hmemo⟩
    | none =>
      rw [hmemo] at hlookUp hls₁
      obtain ⟨best, t₂, s₂, ls, hx, hy, hts₂, hkeeps₂, hls₂, hmade⟩ := hnested _ _
        (hts₁.count fun stats => { stats with visited := stats.visited + 1 })
      have hls : t₂.lookups = t.lookups ++ ⟨⟨slot :: rest, excluded⟩, k, none⟩ :: ls := by
        calc
          t₂.lookups = t₁.lookups ++ ls := hls₂
          _ = _ := by rw [hls₁, List.append_assoc, List.singleton_append]
      -- The ticket of the lookup is still good when the solution is entered.
      exact ⟨best, _, _, _, run_solve_of_new hlookUp hx,
        SearchContext.run_solve_of_unknown hmemo hy, hts₂.enter (hkeeps₂ _ _ hk) best,
        (hkeeps₁.trans hkeeps₂).trans NumberedMemo.keeps_enter, hls,
        .expand hd hs (List.cons_ne_nil slot rest) hmemo hmade⟩

end Functions

end Solving

/-! ### A whole search -/

open Lookup

/-- The first call of a search on a tree: the slots of the weapon are to be decided. -/
def CandidateTree.firstCall (tree : CandidateTree) (excluded : NameSet) : SearchCall :=
  ⟨tree.root.slots, excluded⟩

/-- The course of a search that is over: every sub-problem that the first call leads to was solved
once. -/
structure Course.SolvedOnce (t : Course) (m : ConflictMap) (stat : Stat) (first : SearchCall) :
    Prop where
  /-- Calls share an entry of the table exactly if they have the same slots in the same order and
  exclude the same items. -/
  shared : ∀ l ∈ t.lookups, ∀ l' ∈ t.lookups, l.ticket = l'.ticket ↔
    l.call.slots = l'.call.slots ∧ ∀ id, id ∈ l.call.excluded ↔ id ∈ l'.call.excluded
  /-- The entry of a call is the answer to its sub-problem, and nothing else was ever found. -/
  answered : ∀ l ∈ t.lookups,
    t.memo.solutions[l.ticket]? = some (answer m stat l.call.slots l.call.excluded) ∧
      ∀ found, l.found = some found → found = answer m stat l.call.slots l.call.excluded
  /-- The calls with something to decide: the first one, and those nested in the expansions. -/
  calls : (t.lookups.map Lookup.call).Perm
    ((first :: (expansions t.lookups).flatMap (nested m)).filter fun call => decide call.Open)
  /-- No sub-problem was expanded twice. -/
  nodup : (expansions t.lookups).Nodup
  mem_expansions : ∀ call, call ∈ expansions t.lookups ↔ first.Reaches m call ∧ call.Open
  visited : {call | first.Reaches m call ∧ call.Open}.encard = t.stats.visited
  counted : t.stats.visited + t.stats.memoHits = t.lookups.length

section Search

variable {σ : Type} {tree : CandidateTree} {stat : Stat} {t : Course} {memory : σ}
  {s : Progress σ} {first : SearchCall}

/-- A course in which the first call was made, from an empty table, to a table of answers. -/
theorem Course.Shows.solvedOnce (h : t.Shows s) (hd : tree.root.DistinctAddresses)
    (hs : first.slots ⊆ tree.root.allSlots) (hsound : s.memo.Sound tree stat (· = ·))
    (hmade : Made tree.conflicts [first] ⟨∅, ⟨0, 0, 0, 0⟩, memory⟩ s t.lookups) :
    t.SolvedOnce tree.conflicts stat first := by
  have hwithin : ∀ l ∈ t.lookups, l.call.slots ⊆ tree.root.allSlots :=
    fun l hl => hmade.slots_subset hs hl
  have hmem : ∀ call, call ∈ expansions t.lookups ↔
      first.Reaches tree.conflicts call ∧ call.Open :=
    fun call => hmade.mem_expansions_iff hd hs fun p => Std.TreeMap.getElem?_emptyc
  constructor
  case shared =>
    intro l hl l' hl'
    constructor
    · intro hticket
      have hsame := NumberedMemo.eq_of_ticket? (h.ticket l hl) (hticket ▸ h.ticket l' hl')
      rw [eq_of_subproblem_eq hd (hwithin l hl) (hwithin l' hl') hsame]
      exact ⟨rfl, fun _ => Iff.rfl⟩
    · rintro ⟨hslots, hexcluded⟩
      have hticket := h.ticket l hl
      rw [subproblem, hslots, NameSet.ext_mem hexcluded] at hticket
      exact Option.some.inj (hticket.symm.trans (h.ticket l' hl'))
  case answered =>
    intro l hl
    obtain ⟨solution, hsol, hfound⟩ := hmade.met l hl
    have hanswer := hsound l.call.slots l.call.excluded (hwithin l hl) solution hsol
    rw [h.memo.getElem?_solutions (h.ticket l hl), hsol, ← hanswer]
    exact ⟨rfl, hfound⟩
  case calls =>
    rw [← List.singleton_append, List.filter_append, List.filter_flatMap]
    exact hmade.perm
  case nodup => exact hmade.nodup
  case mem_expansions => exact hmem
  case visited =>
    classical
    have hset : {call | first.Reaches tree.conflicts call ∧ call.Open} =
        ↑(expansions t.lookups).toFinset := by
      ext call
      rw [List.coe_toFinset]
      exact (hmem call).symm
    rw [hset, Set.encard_coe_eq_coe_finsetCard, List.toFinset_card_of_nodup hmade.nodup, h.stats,
      hmade.visited, Nat.zero_add]
  case counted =>
    rw [h.stats, hmade.counted]
    exact Nat.zero_add _

/-- **A search without a cache on a tree** is followed to its end by the numbered search, which
solves every sub-problem once. -/
theorem CandidateTree.exists_course {excluded : NameSet} {depth : Nat}
    (hd : tree.root.DistinctAddresses) (stat : Stat) (hb : tree.blocked excluded = [])
    (hdepth : (tree.firstCall excluded).size < depth) (memory : σ) : ∃ best course,
      (Solving.solve tree.conflicts stat depth (tree.firstCall excluded)).run .start =
        some (best, course) ∧
      (tree.search stat excluded (none : Option (CacheAccess σ))).run memory =
        (.ok ⟨tree.resultOf stat best, course.stats⟩, memory) ∧
      course.SolvedOnce tree.conflicts stat (tree.firstCall excluded) := by
  have hs : tree.root.slots ⊆ tree.root.allSlots := fun _ hs => Part.mem_allSlots_of_mem_slots hs
  obtain ⟨best, t, s, ls, hrun, hsolve, hts, -, hls, hmade⟩ :=
    Solving.follows_solve hd stat depth _ hdepth hs _ _ (Course.shows_start memory)
  obtain rfl : t.lookups = ls := hls
  have hsolve : (SearchContext.solve ⟨tree, stat, none⟩ tree.root.slots excluded).run
      ⟨∅, ⟨0, 0, 0, 0⟩, memory⟩ = (.ok best, s) := hsolve
  -- The table holds plain answers, and the memory of the cache is left alone.
  have hsolves : SearchContext.Solves ⟨tree, stat, none⟩ (· = ·) (· = memory)
      (fun _ => False) tree.root.slots :=
    SearchContext.solve_meets Solution.congruence_eq
      (fun _ h => absurd h (Option.some_ne_none _).symm) hd _ hs
  have hmeets := hsolves excluded ⟨∅, ⟨0, 0, 0, 0⟩, memory⟩ ⟨Memo.sound_empty, rfl⟩
  rw [hsolve] at hmeets
  obtain ⟨-, hsound, hmemory⟩ := hmeets
  refine ⟨best, t, hrun, ?_, hts.solvedOnce hd hs hsound hmade⟩
  unfold CandidateTree.search
  rw [if_pos (List.isEmpty_iff.mpr hb), ExceptT.run_mk, ite_self, hsolve, hts.stats]
  exact congrArg _ hmemory

end Search

/-- **The table solves each sub-problem once.**  Nested calls have less to decide.  So a search on a
built tree, with exclusions that are accepted and without a cache, ends, and calls are not nested
deeper than there are slots. -/
theorem search_solvesOnce {p : Provider Id} {c : Constraints} {maxDepth : Nat} {weaponId : String}
    {b : Stat} {tree : CandidateTree} {excluded : NameSet}
    (hbuild : (CandidateTree.build p maxDepth weaponId b c).run = Except.ok tree) (stat : Stat)
    (haccepted : tree.blocked excluded = []) :
    (∀ call : SearchCall, ∀ sub ∈ call.nested tree.conflicts, sub.size < call.size) ∧
      ∀ depth, (tree.firstCall excluded).size < depth → ∃ best course,
        (Solving.solve tree.conflicts stat depth (tree.firstCall excluded)).run .start =
          some (best, course) ∧
        (tree.search stat excluded (none : Option (CacheAccess Unit))).run () =
          (.ok ⟨tree.resultOf stat best, course.stats⟩, ()) ∧
        course.SolvedOnce tree.conflicts stat (tree.firstCall excluded) := by
  obtain ⟨part, -, hexp, rfl⟩ := CandidateTree.build_ok hbuild
  have hd := CandidateTree.distinctAddresses_ofExpansion maxDepth b hexp
  exact ⟨fun _ _ => size_lt_of_mem_nested,
    fun depth hdepth => CandidateTree.exists_course hd stat haccepted hdepth ()⟩

/-- The stock is excluded from the start, so the grip excludes nothing more: mounting it leads to
the sub-problem that leaving it out leads to.  The mounts are solved apart, and leave the other
slots as they are. -/
theorem search_solvesOnce_sample : ∃ tree,
    (CandidateTree.build twinCatalogue 3 "w" .recoil sampleConstraints).run = Except.ok tree ∧
      tree.blocked (.ofList ["k"]) = [] ∧
      (∀ call : SearchCall, ∀ sub ∈ call.nested tree.conflicts, sub.size < call.size) ∧
      (tree.firstCall (.ofList ["k"])).size < 7 ∧ ∃ best course,
        (Solving.solve tree.conflicts .recoil 7 (tree.firstCall (.ofList ["k"]))).run .start =
          some (best, course) ∧
        (tree.search .recoil (.ofList ["k"]) (none : Option (CacheAccess Unit))).run () =
          (.ok ⟨tree.resultOf .recoil best, course.stats⟩, ()) ∧
        course.SolvedOnce tree.conflicts .recoil (tree.firstCall (.ofList ["k"])) ∧
        course.stats = ⟨6, 3, 0, 0⟩ := by
  have haccepted : ((CandidateTree.build twinCatalogue 3 "w" .recoil
      sampleConstraints).run.toOption.map fun tree => tree.blocked (.ofList ["k"])) =
      some [] := by decide +kernel
  have hsize : ((CandidateTree.build twinCatalogue 3 "w" .recoil
      sampleConstraints).run.toOption.map fun tree =>
        decide ((tree.firstCall (.ofList ["k"])).size < 7)) = some true := by decide +kernel
  have hstats : ((CandidateTree.build twinCatalogue 3 "w" .recoil
      sampleConstraints).run.toOption.bind fun tree =>
        ((Solving.solve tree.conflicts .recoil 7 (tree.firstCall (.ofList ["k"]))).run
          .start).map fun outcome => outcome.2.stats) = some ⟨6, 3, 0, 0⟩ := by decide +kernel
  rcases hbuild : (CandidateTree.build twinCatalogue 3 "w" .recoil sampleConstraints).run
    with e | tree
  · rw [hbuild] at haccepted
    cases haccepted
  rw [hbuild] at haccepted hsize hstats
  have haccepted := Option.some.inj haccepted
  have hdepth := of_decide_eq_true (Option.some.inj hsize)
  obtain ⟨hless, hends⟩ := search_solvesOnce hbuild .recoil haccepted
  obtain ⟨best, course, hrun, hsearch, honce⟩ := hends 7 hdepth
  have hcounted : ((Solving.solve tree.conflicts .recoil 7
      (tree.firstCall (.ofList ["k"]))).run .start).map (fun outcome => outcome.2.stats) =
      some ⟨6, 3, 0, 0⟩ := hstats
  rw [hrun] at hcounted
  exact ⟨tree, rfl, haccepted, hless, hdepth, best, course, hrun, hsearch, honce,
    Option.some.inj hcounted⟩

end Gunsmith
