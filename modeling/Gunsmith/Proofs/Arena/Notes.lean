/-
  What the tables note of the items is exact.

  While the tree is finished, bounds and marks are written down next to the items and slots, and
  candidates are dropped by them.  What is written down in the end is right of the tree as it is in
  the end (`Growth.Holds.root`), whether it was written down anew after the dropping or not.

  So every attached entry of the tables holds a part of the tree (`Part.Held.of_attached`), and
  every part of the tree is held by one (`Part.Held.exists_attached`).  The bounds and the mark of
  the entry are those of the part, and these are exact (`CandidateTree.notes_exact`).
-/
import Gunsmith.Proofs.Arena.Strict
import Gunsmith.Proofs.Tree.Guard

namespace Gunsmith

open Growing

variable {a : Arena} {m : ConflictMap} {part x : Part} {i : Nat}

/-! ### Attached entries -/

/-- Each attached entry holds what is at and below some item of the tree. -/
theorem Part.Held.of_attached (h : part.Held (a.rated m) 0) (hi : a.Attached i) :
    ∃ x, (x = part ∨ part.Attached x) ∧ x.Held (a.rated m) i := by
  induction hi with
  | refl => exact ⟨part, Or.inl rfl, h⟩
  | @tail j c _ hchild ih =>
    obtain ⟨x, hx, hheld⟩ := ih
    obtain ⟨s, hs, hc⟩ := hchild
    obtain ⟨node, ⟨hnode, -⟩, -, hslots⟩ := Part.held_iff.mp hheld
    rw [Arena.slotsOf_of_getElem? hnode] at hs
    obtain ⟨slot, hslot, hslotHeld⟩ := exists_of_forall₂ hslots hs
    obtain ⟨row, ⟨hrow, -⟩, -, hcandidates⟩ := Slot.held_iff.mp hslotHeld
    rw [Arena.candidatesOf_of_getElem? hrow] at hc
    obtain ⟨y, hy, hyHeld⟩ := exists_of_forall₂ hcandidates hc
    have hxy : x.Attached y := Part.attached_of_candidate hslot hy
    refine ⟨y, Or.inr ?_, hyHeld⟩
    rcases hx with rfl | hx
    · exact hxy
    · exact hx.trans hxy

/-- What is at and below an item of the tree is held by an attached entry. -/
theorem Part.Held.exists_attached (h : part.Held a.view i) (hi : a.Attached i)
    (hx : x = part ∨ part.Attached x) : ∃ j, a.Attached j ∧ x.Held a.view j := by
  induction part using Part.induct_children generalizing i with
  | step part ih =>
    rcases hx with rfl | hx
    · exact ⟨i, hi, h⟩
    obtain ⟨s, hs, c, hc, hx⟩ := Part.attached_iff.mp hx
    have hmem : c ∈ part.children := Part.mem_children.mpr ⟨s, hs, hc⟩
    obtain ⟨j, hj, hheld⟩ := exists_of_forall₂ h.children.flip hmem
    have hchild : a.Child i j := Arena.mem_childrenOf.mp hj
    exact ih c hmem hheld (Relation.ReflTransGen.tail hi hchild) hx

/-! ### Notes -/

/-- What the tables note of an item is exact; `x` is what they hold at and below it, and `top` is
the tree that was expanded. -/
structure ItemNode.NotedExactly (node : ItemNode) (a : Arena) (m : ConflictMap) (top x : Part) :
    Prop where
  /-- The bounds of the item are the range of what it can be filled to. -/
  bounds : node.bounds.Exact x.fillable
  /-- The bounds of each of its slots are the range of leaving this empty or filling it. -/
  slotBounds : List.Forall₂ (fun s slot => ∃ row, a.slots[s]? = some row ∧
    row.bounds.Exact slot.fillable) node.slots x.slots
  /-- The item is marked exactly if nothing kept at or below it is in conflict with an item that was
  attached at any time. -/
  conflictFree : node.conflictFree = true ↔ ∀ y, y = x ∨ x.Attached y → ∀ z, top.Attached z →
    ¬ m.Conflicts y.id z.id

/-- Where the tables rate what they hold as it is, they note it exactly. -/
theorem Part.Held.notedExactly (top : Part) (h : x.Held (a.rated top.declarations.symmetric) i)
    (hm : ∀ id other, m.Conflicts id other ↔ top.declarations.symmetric.Conflicts id other) :
    ∃ node, a.items[i]? = some node ∧ node.NotedExactly a m top x := by
  obtain ⟨node, ⟨hnode, hrating⟩, -, hslots⟩ := Part.held_iff.mp h
  have hbounds : node.bounds = x.bounds := congrArg Rating.bounds hrating
  have hfree : node.conflictFree = x.conflictFree top.declarations.symmetric :=
    congrArg Rating.conflictFree hrating
  refine ⟨node, hnode, ?_, ?_, ?_⟩
  · rw [hbounds]
    exact x.bounds_exact
  · refine hslots.flip.imp fun s slot hs => ?_
    obtain ⟨row, ⟨hrow, hrange⟩, -, -⟩ := Slot.held_iff.mp hs
    exact ⟨row, hrow, hrange ▸ slot.bounds_exact⟩
  · rw [hfree, Part.conflictFree_conflicts_iff]
    simp only [hm]

theorem ConflictMap.conflicts_congr {m m' : ConflictMap} (h : m.edges.toList = m'.edges.toList)
    (id other : String) : m.Conflicts id other ↔ m'.Conflicts id other := by
  unfold Conflicts conflictsOf
  rw [Edges.mem_of_iff, Edges.mem_of_iff, h]

/-! ### Built trees -/

namespace CandidateTree

variable {p : Provider Id} {c : Constraints} {maxDepth : Nat} {weaponId : String} {stat : Stat}
  {tree : CandidateTree}

/-- **The notes of a finished tree are exact.**  When a tree has been built, the tables hold it,
each item of it at an attached entry.  What is noted at an attached entry, of the item and of its slots,
is exact for the part of the tree that it holds. -/
theorem notes_exact (hbuild : (build p maxDepth weaponId stat c).run = Except.ok tree) :
    ∃ part m g, (expansion p maxDepth weaponId c).run = Except.ok part ∧
      (grow p maxDepth weaponId stat c).run.run .empty = some (.ok m, g) ∧ g.Holds m tree ∧
      (∀ x, x = tree.root ∨ tree.root.Attached x →
        ∃ i, g.arena.Attached i ∧ x.Held g.arena.view i) ∧
      ∀ i, g.arena.Attached i → ∃ node x, g.arena.items[i]? = some node ∧
        (x = tree.root ∨ tree.root.Attached x) ∧ x.Held g.arena.view i ∧
        node.NotedExactly g.arena m part x := by
  obtain ⟨part, hpart, -, rfl⟩ := build_ok hbuild
  obtain ⟨outcome, g, hrun, -, m, rfl, hholds⟩ :=
    (mirrors_of_ok hpart).mp (mirrors_grow p maxDepth weaponId stat c)
  refine ⟨part, m, g, hpart, hrun, hholds, fun x hx => ?_, fun i hi => ?_⟩
  · exact hholds.root.of_rated.exists_attached Relation.ReflTransGen.refl hx
  · obtain ⟨x, hx, hheld⟩ := hholds.root.of_attached hi
    obtain ⟨node, hnode, hexact⟩ :=
      hheld.notedExactly part (ConflictMap.conflicts_congr hholds.edges)
    exact ⟨node, x, hnode, hx, hheld.of_rated, hexact⟩

/-- The attachments that contain each other bring the recoil down by four.  The useless one would
bring it up by three, but it is dropped, and the range noted of the weapon does not go up any more
in the end. -/
theorem notes_exact_sample : ∃ tree part m g node,
    (build loopStore.provider 4 "w" .recoil loopConstraints).run = Except.ok tree ∧
      (expansion loopStore.provider 4 "w" loopConstraints).run = Except.ok part ∧
      part.bounds = ⟨⟨86, 40⟩, ⟨93, 40⟩⟩ ∧
      (grow loopStore.provider 4 "w" .recoil loopConstraints).run.run .empty = some (.ok m, g) ∧
      g.arena.Attached 0 ∧ g.arena.items[0]? = some node ∧
      node.bounds = ⟨⟨86, 40⟩, ⟨90, 40⟩⟩ ∧
      ∃ x, x.Held g.arena.view 0 ∧ node.NotedExactly g.arena m part x := by
  have hbounds : ((build loopStore.provider 4 "w" .recoil loopConstraints).run.toOption.map
      fun tree => tree.root.bounds) = some ⟨⟨86, 40⟩, ⟨90, 40⟩⟩ := by cbv
  have hbounds' : ((expansion loopStore.provider 4 "w" loopConstraints).run.toOption.map
      Part.bounds) = some ⟨⟨86, 40⟩, ⟨93, 40⟩⟩ := by cbv
  rcases hbuild : (build loopStore.provider 4 "w" .recoil loopConstraints).run with e | tree
  · rw [hbuild] at hbounds
    cases hbounds
  rw [hbuild] at hbounds
  obtain ⟨part, m, g, hpart, hrun, hholds, -, hexact⟩ := notes_exact hbuild
  rw [hpart] at hbounds'
  obtain ⟨node, x, hnode, -, hheld, hnoted⟩ := hexact 0 Relation.ReflTransGen.refl
  have hnodeBounds : node.bounds = tree.root.bounds :=
    congrArg Rating.bounds (hholds.root.entry hnode).2
  have hroot : node.bounds = ⟨⟨86, 40⟩, ⟨90, 40⟩⟩ := hnodeBounds.trans (Option.some.inj hbounds)
  exact ⟨tree, part, m, g, node, rfl, hpart, Option.some.inj hbounds', hrun,
    Relation.ReflTransGen.refl, hnode, hroot, x, hheld, hnoted⟩

end CandidateTree

end Gunsmith
