/-
  The tables under a larger depth limit.

  The limit is looked at in one place only, where the slots of an item stay closed, and then the
  tables are marked.  A mark is never taken back.  So steps that end without a mark have come
  nowhere near the limit, and the same steps are taken under any larger one (`Growing.Deepens`);
  there is one rule for each way to put steps together, as for other runs that are compared.

  Then all of the growth is the same, edit by edit, for every larger limit: the tables are, with the
  candidates that were dropped in them, and so is the finished tree
  (`CandidateTree.truncated_exact`).
-/
import Gunsmith.Proofs.Arena.Strict
import Gunsmith.Proofs.Tree.Depth

namespace Gunsmith

namespace Growing

variable {α β : Type} {x y : Growing α} {p : Provider Id} {c : Constraints}

/-! ### Runs that leave the tables unmarked -/

/-- Where the steps `x` end without a mark on the tables, there was none before, and the steps `y`
end in the same way. -/
def Deepens (x y : Growing α) : Prop :=
  ∀ g a g', x.run.run g = some (.ok a, g') → g'.arena.truncated = false →
    g.arena.truncated = false ∧ y.run.run g = some (.ok a, g')

theorem Deepens.bind {k l : α → Growing β} (h : Deepens x y) (h' : ∀ a, Deepens (k a) (l a)) :
    Deepens (x >>= k) (y >>= l) := by
  intro g b g'' hrun hopen
  rw [run_run_bind] at hrun
  rcases hx : x.run.run g with _ | ⟨e | a, g'⟩
  · rw [hx] at hrun
    cases hrun
  · rw [hx] at hrun
    cases hrun
  · rw [hx] at hrun
    obtain ⟨hopen', hrun'⟩ := h' a g' b g'' hrun hopen
    obtain ⟨hopen, hy⟩ := h g a g' hx hopen'
    refine ⟨hopen, ?_⟩
    rw [run_run_bind, hy]
    exact hrun'

theorem deepens_pure (a : α) : Deepens (pure a) (pure a) := by
  intro g b g' hrun hopen
  cases hrun
  exact ⟨hopen, rfl⟩

theorem deepens_answer (question : Arena → Option α) :
    Deepens (answer question) (answer question) := by
  intro g a g' hrun hopen
  refine ⟨?_, hrun⟩
  rw [run_run_answer] at hrun
  obtain ⟨b, -, heq⟩ := Option.map_eq_some_iff.mp hrun
  cases heq
  exact hopen

theorem deepens_read (reading : Reading Id α) : Deepens (read reading) (read reading) := by
  unfold read
  cases reading.run with
  | ok a => exact deepens_pure a
  | error e => exact fun g a g' hrun => nomatch hrun

/-- No edit takes a mark back. -/
theorem deepens_edit (e : Edit) : Deepens (edit e) (edit e) := by
  intro g a g' hrun hopen
  refine ⟨?_, hrun⟩
  cases hrun
  cases e with
  | cut => exact Bool.noConfusion hopen
  | _ => exact hopen

theorem deepens_register (id : String) (conflicts : List String) :
    Deepens (register id conflicts) (register id conflicts) := by
  intro g a g' hrun hopen
  refine ⟨?_, hrun⟩
  cases hrun
  exact hopen

theorem Deepens.forM {f f' : α → Growing Unit} (h : ∀ a, Deepens (f a) (f' a)) (as : List α) :
    Deepens (as.forM f) (as.forM f') := by
  induction as with
  | nil => exact deepens_pure ()
  | cons a as ih => exact (h a).bind fun _ => ih

/-! ### Populating -/

theorem deepens_tryAttach (s : Nat) (item : AllowedItem) :
    Deepens (tryAttach p c s item) (tryAttach p c s item) := by
  unfold tryAttach
  split
  · exact deepens_pure none
  refine (deepens_read _).bind fun offers => ?_
  split
  · exact deepens_pure none
  refine (deepens_answer _).bind fun cyclic => ?_
  split
  · exact (deepens_edit _).bind fun _ => deepens_pure none
  refine (deepens_read _).bind fun found => ?_
  refine (deepens_register _ _).bind fun _ => ?_
  refine (deepens_answer _).bind fun child => ?_
  refine (deepens_edit _).bind fun _ => ?_
  exact (deepens_edit _).bind fun _ => deepens_pure (some child)

theorem deepens_openSlot {visit visit' : Nat → Growing Unit}
    (h : ∀ i, Deepens (visit i) (visit' i)) (i : Nat) (ownerId : String) (row : SlotRecord) :
    Deepens (openSlot p c visit i ownerId row) (openSlot p c visit' i ownerId row) := by
  unfold openSlot
  refine (deepens_answer _).bind fun s => ?_
  refine (deepens_edit _).bind fun _ => ?_
  refine (deepens_read _).bind fun allowed => ?_
  refine Deepens.forM (fun item => (deepens_tryAttach s item).bind fun child => ?_) allowed
  cases child with
  | none => exact deepens_pure ()
  | some child => exact h child

/-- **A larger limit changes nothing** where none is reached. -/
theorem deepens_populate {depth depth' : Nat} (hle : depth ≤ depth') (i : Nat) :
    Deepens (populate p c depth i) (populate p c depth' i) := by
  induction depth generalizing depth' i with
  | zero =>
    cases depth' with
    | zero =>
      unfold populate
      refine (deepens_answer _).bind fun node => (deepens_read _).bind fun rows => ?_
      split
      · exact deepens_edit .cut
      · exact deepens_pure ()
    | succ depth' =>
      unfold populate
      refine (deepens_answer _).bind fun node => (deepens_read _).bind fun rows => ?_
      cases rows with
      | nil => exact deepens_pure ()
      | cons row rows =>
        -- The slots stay closed under the smaller limit, and the mark says so.
        intro g a g' hrun hopen
        cases hrun
        exact Bool.noConfusion hopen
  | succ depth ih =>
    obtain ⟨depth', rfl⟩ : ∃ n, depth' = n + 1 := ⟨depth' - 1, by omega⟩
    unfold populate
    refine (deepens_answer _).bind fun node => (deepens_read _).bind fun rows => ?_
    exact Deepens.forM (fun row => deepens_openSlot (fun i => ih (by omega) i) i _ row) _

end Growing

/-! ### Built trees -/

open Growing

namespace CandidateTree

variable {p : Provider Id} {c : Constraints} {maxDepth depth : Nat} {weaponId : String}
  {stat : Stat} {tree : CandidateTree} {part : Part}

/-- Where the limit closes nothing, growing the tree for a larger one is growing the same tree. -/
theorem run_grow_of_le (hle : maxDepth ≤ depth)
    (hpart : (expansion p maxDepth weaponId c).run = Except.ok part)
    (hopen : part.truncated = false) :
    (grow p depth weaponId stat c).run.run .empty =
      (grow p maxDepth weaponId stat c).run.run .empty := by
  obtain ⟨w, hvalid, hw, hexpand⟩ := expansion_ok hpart
  obtain ⟨outcome, g, hrun, -, _, rfl, hpopulated⟩ :=
    (mirrors_of_ok hexpand).mp (mirrors_populate maxDepth (entered_weapon w))
  have hunmarked : g.arena.truncated = false := by
    rw [hpopulated.grown.truncated, hopen]
    rfl
  have hrun' := (deepens_populate hle 0 _ _ g hrun hunmarked).2
  have hread : Growing.read (Reading.ask weaponId (p.weapon weaponId)) = pure w := by
    rw [Growing.read, Reading.ask_of_ok hw]
  have hedit : ∀ e : Edit, (edit e).run.run .empty = some (.ok (), Growth.empty.edited e) :=
    fun _ => rfl
  unfold grow
  rw [hvalid]
  simp only [hread, pure_bind]
  rw [run_run_bind, run_run_bind, hedit]
  simp only
  rw [run_run_bind, run_run_bind, hrun, hrun']

/-- **The mark of a tree is exact**: a tree that was built is marked exactly if some item that the
expansion attached at the depth limit has slots in the catalogue.  If it is not marked, then for any
larger limit the growth is the same, all tables with what was dropped and all conflicts, and so is
the tree, except for the limit that it records. -/
theorem truncated_exact (hbuild : (build p maxDepth weaponId stat c).run = Except.ok tree) :
    (∃ part, (expansion p maxDepth weaponId c).run = Except.ok part ∧
      (tree.truncated = true ↔ ∃ chain x, part.Stands chain x ∧ chain.length = maxDepth ∧
        ∃ rows, p.slots x.id = .ok rows ∧ rows ≠ [])) ∧
    (tree.truncated = false → ∃ m g, g.Holds m tree ∧ ∀ depth, maxDepth ≤ depth →
      (build p depth weaponId stat c).run = Except.ok { tree with maxDepth := depth } ∧
        (grow p depth weaponId stat c).run.run .empty = some (.ok m, g)) := by
  obtain ⟨part, hpart, -, rfl⟩ := build_ok hbuild
  refine ⟨⟨part, hpart, truncated_iff hpart⟩, fun hopen => ?_⟩
  obtain ⟨outcome, g, hrun, -, m, rfl, hholds⟩ :=
    (mirrors_of_ok hpart).mp (mirrors_grow p maxDepth weaponId stat c)
  refine ⟨m, g, hholds, fun depth hle => ⟨?_, ?_⟩⟩
  · exact build_of_expansion stat (expansion_of_le hle hpart hopen)
  · exact (run_grow_of_le hle hpart hopen).trans hrun

/-- Of the attachments that contain each other, the third one down still has a slot, in which the
guard lets nothing stand: a limit of three closes it, and a limit of four closes nothing. -/
theorem truncated_exact_sample : ∃ tree tree' m g,
    (build loopStore.provider 3 "w" .recoil loopConstraints).run = Except.ok tree ∧
      (∃ part, (expansion loopStore.provider 3 "w" loopConstraints).run = Except.ok part ∧
        ∃ chain x, part.Stands chain x ∧ chain.length = 3 ∧
          ∃ rows, loopStore.provider.slots x.id = .ok rows ∧ rows ≠ []) ∧
      (build loopStore.provider 4 "w" .recoil loopConstraints).run = Except.ok tree' ∧
      g.Holds m tree' ∧
      ∀ depth, 4 ≤ depth →
        (build loopStore.provider depth "w" .recoil loopConstraints).run =
          Except.ok { tree' with maxDepth := depth } ∧
        (grow loopStore.provider depth "w" .recoil loopConstraints).run.run .empty =
          some (.ok m, g) := by
  have hmark : ((build loopStore.provider 3 "w" .recoil loopConstraints).run.toOption.map
      CandidateTree.truncated) = some true := by cbv
  have hopen : ((build loopStore.provider 4 "w" .recoil loopConstraints).run.toOption.map
      CandidateTree.truncated) = some false := by cbv
  rcases hbuild : (build loopStore.provider 3 "w" .recoil loopConstraints).run with e | tree
  · rw [hbuild] at hmark
    cases hmark
  rcases hbuild' : (build loopStore.provider 4 "w" .recoil loopConstraints).run with e | tree'
  · rw [hbuild'] at hopen
    cases hopen
  rw [hbuild] at hmark
  rw [hbuild'] at hopen
  obtain ⟨⟨part, hpart, hiff⟩, -⟩ := truncated_exact hbuild
  obtain ⟨m, g, hholds, hlarger⟩ := (truncated_exact hbuild').2 (Option.some.inj hopen)
  refine ⟨tree, tree', m, g, rfl, ?_, rfl, hholds, hlarger⟩
  exact ⟨part, hpart, hiff.mp (Option.some.inj hmark)⟩

end CandidateTree

end Gunsmith
