/-
  What the cycle guard bounds.

  An item is mounted only if its placement is new on the chain, so no placement occurs twice
  on a chain (`Guarded`), and a chain is no longer than the catalogue allows placements
  (`Guarded.length_le`).  This holds also where items of the catalogue contain each other.

  So an expansion ends on its own.  Once the depth limit exceeds the number of placements,
  it makes no difference (`expand_eq`): no item is marked, and no tree is higher than there
  are placements (`CandidateTree.guardBounds`).
-/
import Gunsmith.Proofs.Store.Catalogue
import Gunsmith.Proofs.Tree.Standing
import Mathlib

namespace Gunsmith

/-! ### Readings that agree -/

namespace Reading

variable {α β : Type}

/-- Readings that begin alike agree if they agree on what is read. -/
theorem bind_congr {x : Reading Id α} {f g : α → Reading Id β}
    (h : ∀ a, x.run = Except.ok a → f a = g a) : (x >>= f) = (x >>= g) := by
  have hrun : (x >>= f).run = (x >>= g).run := by
    rw [ExceptT.run_bind, ExceptT.run_bind]
    rcases hx : x.run with e | a
    · rfl
    · show (f a).run = (g a).run
      rw [h a hx]
  exact hrun

theorem mapM_congr {f g : α → Reading Id β} {xs : List α} (h : ∀ x ∈ xs, f x = g x) :
    xs.mapM f = xs.mapM g := by
  induction xs with
  | nil => rw [List.mapM_nil, List.mapM_nil]
  | cons x xs ih =>
    rw [List.mapM_cons, List.mapM_cons, h x List.mem_cons_self,
      ih fun y hy => h y (List.mem_cons_of_mem x hy)]

end Reading

/-! ### Guarded chains -/

/-- The catalogue allows every placement on the chain, and no placement occurs twice. -/
structure Guarded (p : Provider Id) (chain : List Placement) : Prop where
  nodup : chain.Nodup
  fits : ∀ placement ∈ chain, placement.Fits p

section Guard

variable {p : Provider Id} {c : Constraints} {chain chain₀ : List Placement} {depth : Nat}
  {top part : Part} {placements : List Placement}

theorem guarded_nil : Guarded p [] where
  nodup := List.nodup_nil
  fits _ h := absurd h List.not_mem_nil

theorem Guarded.cons {placement : Placement} (h : Guarded p chain) (hfits : placement.Fits p)
    (hnew : placement ∉ chain) : Guarded p (placement :: chain) where
  nodup := List.nodup_cons.mpr ⟨hnew, h.nodup⟩
  fits := List.forall_mem_cons.mpr ⟨hfits, h.fits⟩

/-- **A guarded chain is no longer** than there are placements. -/
theorem Guarded.length_le (h : Guarded p chain)
    (hplacements : ∀ placement : Placement, placement.Fits p → placement ∈ placements) :
    chain.length ≤ placements.length :=
  (List.subperm_of_subset h.nodup fun placement hmem =>
    hplacements placement (h.fits placement hmem)).length_le

/-- Chains in an expansion are guarded. -/
theorem Guarded.of_stands (h : Guarded p chain₀) (hexp : ExpandedAt p c depth chain₀ top)
    (hx : top.Stands chain part) : Guarded p (chain ++ chain₀) := by
  induction hx with
  | top => exact h
  | mount hpart hs hd ih =>
    obtain ⟨rest, -, hexp'⟩ := hexp.of_stands hpart
    obtain ⟨_, -, -, hmounted⟩ := hexp'.candidate hs hd
    obtain ⟨allowed, hallowed, hitem⟩ := hmounted.fits
    exact ih.cons ⟨allowed, hallowed, _, hitem, rfl⟩ hmounted.new

/-! ### Depth limits that make no difference -/

/-- **The guard ends an expansion**: two depth limits lead to the same if both exceed the number of
placements that are left. -/
theorem expand_eq
    (hplacements : ∀ placement : Placement, placement.Fits p → placement ∈ placements)
    (depth : Nat) : ∀ {depth' : Nat} {chain : List Placement} (address : List Nat) (label : Label),
    Guarded p chain → placements.length < chain.length + depth →
    placements.length < chain.length + depth' →
    expand p c depth chain address label = expand p c depth' chain address label := by
  induction depth with
  | zero =>
    -- No guarded chain is that long.
    intro depth' chain address label hchain hdepth _
    exact absurd (hchain.length_le hplacements) (Nat.not_le_of_lt hdepth)
  | succ depth ih =>
    intro depth' chain address label hchain hdepth hdepth'
    cases depth' with
    | zero => exact absurd (hchain.length_le hplacements) (Nat.not_le_of_lt hdepth')
    | succ depth' =>
      -- Both read the same up to the items that are mounted, and there the chain is longer by one.
      rw [expand, expand]
      refine Reading.bind_congr fun rows _ => ?_
      congr 1
      refine Reading.mapM_congr fun r _ => ?_
      refine Reading.bind_congr fun allowed hallowed => ?_
      congr 1
      refine Reading.mapM_congr fun a ha => ?_
      refine Reading.bind_congr fun verdict hverdict => ?_
      cases verdict with
      | unavailable => rfl
      | cyclic => rfl
      | mounted label' =>
        cases consider_ok hverdict with
        | @mounted _ found _ _ _ hnew _ =>
          have hfits : Placement.Fits p ⟨a.1.id, r.1.id⟩ :=
            ⟨allowed, Reading.ask_ok hallowed, a.1, List.fst_mem_of_mem_zipIdx ha, rfl⟩
          have hbelow : expand p c depth (⟨a.1.id, r.1.id⟩ :: chain)
              (a.2 :: r.2 :: address) (a.1.label found) =
              expand p c depth' (⟨a.1.id, r.1.id⟩ :: chain) (a.2 :: r.2 :: address)
                (a.1.label found) := by
            refine ih _ _ (hchain.cons hfits hnew) ?_ ?_
            · rw [List.length_cons]
              omega
            · rw [List.length_cons]
              omega
          dsimp only
          rw [hbelow]

end Guard

/-! ### Built trees -/

namespace CandidateTree

/-- The tree is bounded by a number of placements. -/
structure Bounded (tree : CandidateTree) (n : Nat) : Prop where
  /-- No placement occurs twice on the way to an item. -/
  nodup : ∀ chain part, tree.root.Stands chain part → chain.Nodup
  height : tree.root.height ≤ min tree.maxDepth n
  truncated : n < tree.maxDepth → tree.truncated = false

variable {p : Provider Id} {c : Constraints} {maxDepth : Nat} {weaponId : String} {stat : Stat}
  {part : Part}

theorem expandedAt_of_expansion (h : (expansion p maxDepth weaponId c).run = Except.ok part) :
    ExpandedAt p c maxDepth [] part := by
  obtain ⟨w, -, -, hexpand⟩ := expansion_ok h
  exact ⟨[], rootLabel w, rfl, hexpand⟩

/-- What stands in the expansion was expanded at the end of its chain, and the chain is guarded. -/
theorem expandedAt_of_stands (h : (expansion p maxDepth weaponId c).run = Except.ok part)
    {chain : List Placement} {x : Part} (hx : part.Stands chain x) :
    ∃ rest, rest + chain.length = maxDepth ∧ ExpandedAt p c rest chain x ∧ Guarded p chain := by
  have htop := expandedAt_of_expansion h
  have hguarded := guarded_nil.of_stands htop hx
  obtain ⟨rest, hlength, hexp⟩ := htop.of_stands hx
  rw [List.append_nil] at hguarded hexp
  exact ⟨rest, hlength, hexp, hguarded⟩

/-- What stands in a finished tree is the finished form of what stands in the expansion. -/
theorem stands_ofExpansion {chain : List Placement} {y : Part}
    (hy : (ofExpansion maxDepth stat c part).root.Stands chain y) :
    ∃ x, part.Stands chain x ∧ x.finished part.declarations.symmetric stat = y := by
  refine (trimming_finished part.declarations.symmetric stat).stands (fun t => ?_) hy
  obtain ⟨pruned, hsite⟩ := t.site_finished part.declarations.symmetric stat
  rw [hsite]

/-- A finished expansion is bounded by the number of placements. -/
theorem bounded_ofExpansion {placements : List Placement}
    (hplacements : ∀ placement : Placement, placement.Fits p → placement ∈ placements)
    (h : (expansion p maxDepth weaponId c).run = Except.ok part) :
    (ofExpansion maxDepth stat c part).Bounded placements.length := by
  refine ⟨fun chain y hy => ?_, Part.height_le_of_stands fun chain y hy => ?_, fun hlt => ?_⟩
  · obtain ⟨x, hx, -⟩ := stands_ofExpansion hy
    obtain ⟨_, -, -, hguarded⟩ := expandedAt_of_stands h hx
    exact hguarded.nodup
  · obtain ⟨x, hx, -⟩ := stands_ofExpansion hy
    obtain ⟨rest, hlength, -, hguarded⟩ := expandedAt_of_stands h hx
    refine le_min ?_ (hguarded.length_le hplacements)
    show chain.length ≤ maxDepth
    omega
  · refine Part.truncated_eq_false_of_stands fun chain x hx => ?_
    obtain ⟨rest, hlength, hexp, hguarded⟩ := expandedAt_of_stands h hx
    have hle := hguarded.length_le hplacements
    have hlt : placements.length < maxDepth := hlt
    -- The chain leaves some depth, so the item was not cut.
    obtain ⟨rest', rfl⟩ : ∃ rest', rest = rest' + 1 := ⟨rest - 1, by omega⟩
    exact hexp.cut_eq_false

/-- **The cycle guard bounds the expansion** by the number of placements that the catalogue allows:
depth limits above it make no difference, and every tree that is built is bounded by it. -/
theorem guardBounds (s : Store) (weaponId : String) (c : Constraints) :
    (∀ depth, s.placements.length < depth →
      (expansion s.provider depth weaponId c).run =
        (expansion s.provider (s.placements.length + 1) weaponId c).run) ∧
    ∀ maxDepth stat tree, (build s.provider maxDepth weaponId stat c).run = Except.ok tree →
      tree.maxDepth = maxDepth ∧ tree.Bounded s.placements.length := by
  have hplacements : ∀ placement : Placement,
      placement.Fits s.provider → placement ∈ s.placements := by
    rintro ⟨itemId, slotId⟩ ⟨allowed, hallowed, item, hitem, rfl⟩
    exact (Store.mem_allowedIn hallowed hitem).1
  constructor
  · intro depth hdepth
    -- Nothing is read before the expansion that depends on the limit.
    unfold expansion
    cases c.validate with
    | error detail => rfl
    | ok _ =>
      refine congrArg ExceptT.run (Reading.bind_congr fun w _ => ?_)
      refine expand_eq hplacements depth [] _ guarded_nil ?_ ?_
      · rw [List.length_nil]
        omega
      · rw [List.length_nil]
        omega
  · intro maxDepth stat tree hbuild
    obtain ⟨part, hexp, -, rfl⟩ := build_ok hbuild
    exact ⟨rfl, bounded_ofExpansion hplacements hexp⟩

/-- A catalogue in which two attachments contain each other.  Of the two others for the rail of the
weapon, nobody sells the one, and the other is of no use. -/
def loopStore : Store :=
  { Store.fresh with
    items := some [⟨"w", "Rifle", .weapon, ⟨90, 40⟩⟩, ⟨"a", "A", .attachment, ⟨-1, 0⟩⟩,
      ⟨"b", "B", .attachment, ⟨-2, 0⟩⟩, ⟨"d", "D", .attachment, ⟨3, 0⟩⟩,
      ⟨"e", "E", .attachment, ⟨-9, 0⟩⟩]
    slots := some [⟨"w_sight", "w", "sight", 0⟩, ⟨"w_rail", "w", "rail", 1⟩,
      ⟨"a_rail", "a", "rail", 0⟩, ⟨"b_rail", "b", "rail", 0⟩]
    allowed := some [⟨"w_rail", "a", 0⟩, ⟨"w_rail", "d", 1⟩, ⟨"w_rail", "e", 2⟩,
      ⟨"a_rail", "b", 0⟩, ⟨"b_rail", "a", 0⟩]
    offers := some [⟨"a", "Prapor", 1, 100⟩, ⟨"b", "Prapor", 4, 100⟩, ⟨"d", "Skier", 2, 100⟩,
      ⟨"e", "Fence", 5, 100⟩] }

/-- A buyer who leaves the sight alone. -/
def loopConstraints : Constraints := ⟨.uniform 4, .ofList ["sight"], ∅⟩

theorem guardBounds_sample : ∃ tree,
    (build loopStore.provider 4294967295 "w" .recoil loopConstraints).run = Except.ok tree ∧
      tree.maxDepth = 4294967295 ∧ tree.Bounded 5 := by
  obtain ⟨hdepths, hbounded⟩ := guardBounds loopStore "w" loopConstraints
  have hok : (expansion loopStore.provider (loopStore.placements.length + 1) "w"
      loopConstraints).run.toOption.isSome = true := by cbv
  rw [← hdepths 4294967295 (by decide)] at hok
  rcases hexp : (expansion loopStore.provider 4294967295 "w" loopConstraints).run with e | part
  · rw [hexp] at hok
    cases hok
  · have hbuild := build_of_expansion .recoil hexp
    exact ⟨_, hbuild, hbounded 4294967295 .recoil _ hbuild⟩

end CandidateTree

end Gunsmith
