/-
  The search for the best build.

  The search decides slots one after the other.  For the first open slot it tries the
  empty choice and then every candidate that is not excluded, in order, and a later
  choice replaces an earlier one only if it is strictly better.

  Choosing an item opens its slots and excludes what is in conflict with it.  If nothing
  at or below the item is in conflict with any candidate, then its slots and the other
  open slots have nothing to do with each other, and the two are solved apart.  The best
  way to fill the slots below such an item, with nothing excluded, is the same wherever
  the item stands, so it can be kept in a cache across searches (`CacheAccess`).

  The recursion ends because every nested call has fewer slots in the trees below the
  slots that it has to decide.
-/
import Gunsmith.Error
import Gunsmith.Search.Solution
import Gunsmith.Tree.Candidates

namespace Gunsmith

/-- Reads the keyword of the stat to focus on. -/
def Stat.parseFocused (text : String) : Except EvalError Stat :=
  (Stat.parse text).mapError .invalidConfiguration

/-- What a search did. -/
structure SearchStats where
  /-- Sub-problems solved. -/
  visited : Nat
  /-- Solutions taken from the table of this search. -/
  memoHits : Nat
  /-- Solutions taken from the cache. -/
  cacheHits : Nat
  /-- Solutions that the cache was asked for in vain. -/
  cacheMisses : Nat
deriving DecidableEq, Inhabited

/-- Access to a cache of isolated solutions whose memory is `σ`. -/
structure CacheAccess (σ : Type) where
  get : String → Stat → Constraints → StateM σ (Except StoreError (Option CacheEntry))
  set : Constraints → CacheEntry → StateM σ (Except StoreError Unit)

/-- What a search carries along. -/
structure Progress (σ : Type) where
  memo : Memo
  stats : SearchStats
  cache : σ

/-- Steps of a search whose cache has memory `σ`. -/
abbrev Searching (σ : Type) := ExceptT EvalError (StateM (Progress σ))

namespace Searching

variable {σ : Type}

/-- Counts something. -/
def count (f : SearchStats → SearchStats) : Searching σ Unit :=
  modify fun s => { s with stats := f s.stats }

/-- Looks a sub-problem up in the table. -/
def known? (key : Subproblem) : Searching σ (Option Solution) := do
  return (← get).memo[key]?

/-- Enters a solution into the table. -/
def remember (key : Subproblem) (solution : Solution) : Searching σ Unit :=
  modify fun s => { s with memo := s.memo.insert key solution }

/-- Makes a call on the cache. -/
def onCache {α : Type} (call : StateM σ (Except StoreError α)) : Searching σ α :=
  ExceptT.mk fun s =>
    let (answer, cache) := call s.cache
    (answer.mapError .cache, { s with cache := cache })

end Searching

/-- What a search works on. -/
structure SearchContext (σ : Type) where
  tree : CandidateTree
  stat : Stat
  cache : Option (CacheAccess σ)

namespace SearchContext

variable {σ : Type} (ctx : SearchContext σ)

/-- Some item at or below the given one is excluded. -/
def touches (part : Part) (excluded : NameSet) : Bool :=
  part.ids.any fun id => decide (id ∈ excluded)

/-- An entry can be used although some items are excluded: it mounts none of them. -/
def usable (entry : CacheEntry) (excluded : NameSet) : Bool :=
  (chosenIds entry.selections).all fun id => decide (id ∉ excluded)

/-- The entry for the isolated solution of an item. -/
def entryOf (part : Part) (solution : Solution) : CacheEntry :=
  ⟨part.id, ctx.stat, solution.sums, solution.selections⟩

/-- The items that are excluded once an item is chosen. -/
def excludedBy (part : Part) (excluded : NameSet) : NameSet :=
  excluded.insertAll (ctx.tree.conflicts.conflictsOf part.id).toList

/-- A solution for the slots below an item, with the item itself counted in. -/
def withOwn (part : Part) (solution : Solution) : Solution :=
  { solution with sums := solution.sums + part.label.modifiers }

mutual

/-- The best way to decide some slots while some items are excluded. -/
def solve (slots : List Slot) (excluded : NameSet) : Searching σ Solution :=
  match slots with
  | [] => return .empty
  | slot :: rest => do
    let key := Subproblem.of (slot :: rest) excluded
    match ← Searching.known? key with
    | some solution =>
      Searching.count fun s => { s with memoHits := s.memoHits + 1 }
      return solution
    | none =>
      Searching.count fun s => { s with visited := s.visited + 1 }
      let skipped ← solve rest excluded
      let best ← solveAmong slot slot.candidates rest excluded
        (.prepend (slot.select none) 0 [skipped])
      Searching.remember key best
      return best
termination_by (Slot.totalCount slots, 1, 0)
decreasing_by
  · simp only [Slot.totalCount_cons, Slot.slotCount_eq]
    exact Prod.Lex.left _ _ (by omega)
  · simp only [Slot.totalCount_cons, Slot.slotCount_eq]
    exact Prod.Lex.right' _ (by omega) (Prod.Lex.left _ _ (by omega))

/-- The best of an incumbent and the choices of some candidates for a slot. -/
def solveAmong (slot : Slot) (candidates : List Part) (rest : List Slot) (excluded : NameSet)
    (best : Solution) : Searching σ Solution :=
  match candidates with
  | [] => return best
  | c :: cs => do
    if c.id ∈ excluded then
      solveAmong slot cs rest excluded best
    else
      let option ← solveChoice slot c rest excluded
      solveAmong slot cs rest excluded (if option.Better ctx.stat best then option else best)
termination_by (Slot.totalCount rest + 1 + Part.totalCount candidates, 0, candidates.length + 1)
decreasing_by
  · simp only [Part.totalCount_cons, List.length_cons]
    exact Prod.Lex.right' _ (by omega) (Prod.Lex.right _ (by omega))
  · simp only [Part.totalCount_cons, List.length_cons]
    exact Prod.Lex.right' _ (by omega) (Prod.Lex.right _ (by omega))
  · simp only [Part.totalCount_cons, List.length_cons]
    exact Prod.Lex.right' _ (by omega) (Prod.Lex.right _ (by omega))

/-- The best continuation once a candidate is put into a slot. -/
def solveChoice (slot : Slot) (part : Part) (rest : List Slot) (excluded : NameSet) :
    Searching σ Solution := do
  let selection := slot.select (some part)
  if part.conflictFree ctx.tree.conflicts then
    let below ← solveBelow part excluded
    let others ← solve rest excluded
    return .prepend selection 0 [below, others]
  else
    let others ← solve (rest ++ part.slots) (ctx.excludedBy part excluded)
    return .prepend selection part.label.modifiers [others]
termination_by (Slot.totalCount rest + 1 + part.slotCount, 0, 0)
decreasing_by
  · exact Prod.Lex.left _ _ (by omega)
  · exact Prod.Lex.left _ _ (by omega)
  · simp only [Slot.totalCount_append, Part.slotCount_eq]
    exact Prod.Lex.left _ _ (by omega)

/-- The best way to fill the slots below a conflict-free item, from the cache where it helps. -/
def solveBelow (part : Part) (excluded : NameSet) : Searching σ Solution := do
  match ctx.cache with
  | none => return withOwn part (← solve part.slots excluded)
  | some cache =>
    if touches part excluded then
      return withOwn part (← solve part.slots excluded)
    else
      match ← Searching.onCache (cache.get part.id ctx.stat ctx.tree.constraints) with
      | some entry =>
        if usable entry excluded then
          Searching.count fun s => { s with cacheHits := s.cacheHits + 1 }
          return ⟨entry.sums, entry.selections⟩
        else
          solveAndStore cache part
      | none => solveAndStore cache part
termination_by (part.slotCount, 3, 0)
decreasing_by
  · simp only [Part.slotCount_eq]
    exact Prod.Lex.right _ (Prod.Lex.left _ _ (by omega))
  · simp only [Part.slotCount_eq]
    exact Prod.Lex.right _ (Prod.Lex.left _ _ (by omega))
  · exact Prod.Lex.right _ (Prod.Lex.left _ _ (by omega))
  · exact Prod.Lex.right _ (Prod.Lex.left _ _ (by omega))

/-- Solves the slots below an item with nothing excluded, and puts the solution into the cache. -/
def solveAndStore (cache : CacheAccess σ) (part : Part) : Searching σ Solution := do
  Searching.count fun s => { s with cacheMisses := s.cacheMisses + 1 }
  let solution := withOwn part (← solve part.slots ∅)
  Searching.onCache (cache.set ctx.tree.constraints (ctx.entryOf part solution))
  return solution
termination_by (part.slotCount, 2, 0)
decreasing_by
  · simp only [Part.slotCount_eq]
    exact Prod.Lex.right _ (Prod.Lex.left _ _ (by omega))

end

end SearchContext

/-- A build and what it took to find it. -/
structure SearchOutcome where
  result : BuildResult
  stats : SearchStats
deriving DecidableEq, Inhabited

namespace CandidateTree

variable {σ : Type}

/-- The cache can be used for the tree: no slot was left out by the request or the depth limit and
no item was excluded, so what is found below an item holds for every such request. -/
def Cacheable (tree : CandidateTree) : Prop :=
  tree.constraints.IsDefault ∧ tree.truncated = false

instance (tree : CandidateTree) : Decidable tree.Cacheable :=
  inferInstanceAs (Decidable (_ ∧ _))

/-- The excluded items that the pruning of the tree relies on, in ascending order. -/
def blocked (tree : CandidateTree) (excluded : NameSet) : List String :=
  excluded.toList.filter fun id => decide (id ∈ tree.rivalIds)

/-- The refusal of exclusions that the tree was not built for. -/
def refusal (ids : List String) : EvalError :=
  let list := ",".intercalate ids
  .invalidConfiguration s!"初始排除集包含剔除候选所依据的物品: {list},请改用约束中的排除物品重新建树"

/-- The build that a solution for the slots of the weapon stands for. -/
def resultOf (tree : CandidateTree) (stat : Stat) (best : Solution) : BuildResult where
  itemId := tree.root.id
  itemName := tree.root.label.name
  stat := stat
  sums := tree.root.label.modifiers + best.sums
  selections := best.selections

/-- Finds the best build on a tree with the given items excluded from the start.  Items on which
the pruning of the tree relies cannot be excluded afterwards. -/
def search (tree : CandidateTree) (stat : Stat) (excluded : NameSet)
    (cache : Option (CacheAccess σ)) : ExceptT EvalError (StateM σ) SearchOutcome :=
  if (tree.blocked excluded).isEmpty then
    let ctx : SearchContext σ :=
      ⟨tree, stat, if tree.Cacheable then cache else none⟩
    ExceptT.mk fun memory =>
      let (best, final) := (ctx.solve tree.root.slots excluded).run ⟨∅, ⟨0, 0, 0, 0⟩, memory⟩
      (best.map fun best => ⟨tree.resultOf stat best, final.stats⟩, final.cache)
  else
    throw (refusal (tree.blocked excluded))

end CandidateTree

end Gunsmith
