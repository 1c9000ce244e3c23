/-
  Questions about the tables are answered as the tree that they hold says.

  The tree is read from the leaves up, while the tables are climbed and visited number by number.
  What joins the two is that the children of an item, in the order of its slots, hold the candidates
  for these slots (`Part.Held.children`).

  So the height that is found in the tables is the height of the tree (`Part.Held.heightFrom`), the
  ids that are found are those of the tree in the same order (`Part.Held.visitsAs`), and each
  item of the tree is as far from the top as it is listed (`Part.Held.depth_of_mem_nodes`).
-/
import Gunsmith.Proofs.Arena.Held
import Gunsmith.Proofs.Arena.Traversal
import Gunsmith.Proofs.Tree.Standing

namespace Gunsmith

variable {a : Arena} {part : Part} {i : Nat}

/-- The candidates for the slots of an item, slot by slot. -/
def Part.children (part : Part) : List Part := part.slots.flatMap Slot.candidates

theorem Part.mem_children {c : Part} :
    c ∈ part.children ↔ ∃ s ∈ part.slots, c ∈ s.candidates := List.mem_flatMap

/-- Induction from the candidates for its slots to an item. -/
theorem Part.induct_children {motive : Part → Prop}
    (step : ∀ part : Part, (∀ c ∈ part.children, motive c) → motive part) : ∀ part, motive part :=
  Part.induct_slots fun part ih => step part fun c hc => by
    obtain ⟨s, hs, hc⟩ := Part.mem_children.mp hc
    exact ih s hs c hc

/-! ### The children of an item -/

theorem Part.Held.exists_node (h : part.Held a.view i) :
    ∃ node, a.items[i]? = some node ∧ node.Shows part.label := by
  obtain ⟨node, ⟨-, hnode⟩, hshows, -⟩ := Part.held_iff.mp h
  exact ⟨node, hnode, hshows⟩

theorem Part.Held.lt_length (h : part.Held a.view i) : i < a.items.length := by
  obtain ⟨node, hnode, -⟩ := h.exists_node
  exact (List.getElem?_eq_some_iff.mp hnode).1

/-- The children of an item hold the candidates for its slots. -/
theorem Part.Held.children (h : part.Held a.view i) :
    List.Forall₂ (Part.Held a.view) part.children (a.childrenOf i) := by
  obtain ⟨node, ⟨-, hnode⟩, -, hslots⟩ := Part.held_iff.mp h
  unfold Part.children Arena.childrenOf
  rw [Arena.slotsOf_of_getElem? hnode]
  refine List.rel_flatMap hslots fun slot s hs => ?_
  obtain ⟨slotNode, ⟨-, hslotNode⟩, -, hcandidates⟩ := Slot.held_iff.mp hs
  rw [Arena.candidatesOf_of_getElem? hslotNode]
  exact hcandidates

/-! ### The height -/

theorem foldl_max_flatMap {α : Type} (f : α → List Nat) (xs : List α) (m : Nat) :
    (xs.map fun x => (f x).foldl max 0).foldl max m = (xs.flatMap f).foldl max m := by
  induction xs generalizing m with
  | nil => rfl
  | cons x xs ih =>
    rw [List.map_cons, List.foldl_cons, ih, List.flatMap_cons, List.foldl_append]
    congr 1
    calc max m ((f x).foldl max 0) = (f x).foldl max (max m 0) := List.foldl_assoc.symm
      _ = (f x).foldl max m := by rw [Nat.max_zero]

theorem Part.height_eq_children (part : Part) :
    part.height = ((part.children.map Part.height).map (1 + ·)).foldl max 0 := by
  rw [Part.height_eq, foldl_max_flatMap, Part.children, List.map_map, List.map_flatMap]
  simp only [Function.comp_def, Nat.add_comm 1]

theorem Part.height_lt_of_child {c : Part} (hc : c ∈ part.children) : c.height < part.height := by
  rw [part.height_eq_children]
  have hmem : 1 + c.height ∈ (part.children.map Part.height).map (1 + ·) :=
    List.mem_map_of_mem (List.mem_map_of_mem hc)
  have hle := (foldl_max_spec _ 0).2.2 _ hmem
  omega

/-- **The height that is found** is the height of the tree. -/
theorem Part.Held.heightFrom (h : part.Held a.view i) (hwf : a.WellFormed) {steps : Nat}
    (hsteps : part.height < steps) : a.heightFrom steps i = some part.height := by
  induction part using Part.induct_children generalizing i steps with
  | step part ih =>
    obtain ⟨node, hnode, -⟩ := h.exists_node
    obtain ⟨steps, rfl⟩ : ∃ k, steps = k + 1 := ⟨steps - 1, by omega⟩
    rw [part.height_eq_children]
    apply Arena.heightFrom_of_children hwf hnode
    rw [List.forall₂_map_right_iff]
    refine (forall₂_imp_of_mem h.children fun c hc j hj => ?_).flip
    have hlt := Part.height_lt_of_child hc
    exact ih c hc hj (by omega)

/-- Numbers rise on the way down, so a held tree is not higher than there are items to come. -/
theorem Part.Held.height_lt (h : part.Held a.view i) (hwf : a.WellFormed) :
    i + part.height < a.items.length := by
  induction part using Part.induct_children generalizing i with
  | step part ih =>
    have hi := h.lt_length
    have hle : part.height ≤ a.items.length - 1 - i := by
      rw [part.height_eq_children]
      refine Part.foldl_max_le (fun k hk => ?_) (Nat.zero_le _)
      rw [List.map_map] at hk
      obtain ⟨c, hc, rfl⟩ := List.mem_map.mp hk
      obtain ⟨j, hj, hheld⟩ := exists_of_forall₂ h.children.flip hc
      have hchild := (Arena.mem_childrenOf.mp hj).lt hwf
      have hlt := ih c hc hheld
      show 1 + c.height ≤ _
      omega
    omega

theorem Part.Held.height (h : part.Held a.view 0) (hwf : a.WellFormed) :
    a.height = some part.height := by
  have hlt := h.height_lt hwf
  exact h.heightFrom hwf (by omega)

/-! ### The ids -/

namespace Arena

@[simp]
theorem visitFrom_nil (a : Arena) (steps : Nat) (visited : List (Nat × ItemNode)) :
    a.visitFrom steps [] visited = some visited := by
  cases steps <;> rfl

/-- More steps do not change an answer. -/
theorem visitFrom_add {steps : Nat} {stack : List Nat} {visited all : List (Nat × ItemNode)}
    (h : a.visitFrom steps stack visited = some all) (more : Nat) :
    a.visitFrom (steps + more) stack visited = some all := by
  induction steps generalizing stack visited with
  | zero =>
    cases stack with
    | nil => rwa [visitFrom_nil] at h ⊢
    | cons i rest => cases h
  | succ steps ih =>
    cases stack with
    | nil => rwa [visitFrom_nil] at h ⊢
    | cons i rest =>
      rw [Nat.add_right_comm]
      rw [visitFrom] at h ⊢
      simp only [Option.bind_eq_bind, Option.bind_eq_some_iff] at h ⊢
      obtain ⟨node, hnode, candidates, hcandidates, hrest⟩ := h
      exact ⟨node, hnode, candidates, hcandidates, ih hrest⟩

/-- Visiting some items, and everything below them, finds items with some ids. -/
def VisitsAs (a : Arena) (stack : List Nat) (ids : List String) : Prop :=
  ∃ visits : List (Nat × ItemNode), visits.map (fun v => v.2.id) = ids ∧
    ∀ steps rest visited, a.visitFrom (visits.length + steps) (stack ++ rest) visited =
      a.visitFrom steps rest (visited ++ visits)

variable {stack stack' : List Nat} {ids ids' : List String}

theorem VisitsAs.nil (a : Arena) : a.VisitsAs [] [] :=
  ⟨[], rfl, fun steps rest visited => by simp⟩

theorem VisitsAs.append (h : a.VisitsAs stack ids) (h' : a.VisitsAs stack' ids') :
    a.VisitsAs (stack ++ stack') (ids ++ ids') := by
  obtain ⟨visits, rfl, hvisits⟩ := h
  obtain ⟨visits', rfl, hvisits'⟩ := h'
  refine ⟨visits ++ visits', List.map_append, fun steps rest visited => ?_⟩
  rw [List.length_append, Nat.add_assoc, List.append_assoc, hvisits, hvisits', List.append_assoc]

theorem VisitsAs.cons {node : ItemNode} (hwf : a.WellFormed) (hnode : a.items[i]? = some node)
    (h : a.VisitsAs (a.childrenOf i).reverse ids) : a.VisitsAs [i] (node.id :: ids) := by
  obtain ⟨visits, rfl, hvisits⟩ := h
  refine ⟨(i, node) :: visits, List.map_cons, fun steps rest visited => ?_⟩
  rw [List.length_cons, Nat.add_right_comm, List.singleton_append, visitFrom_cons hwf hnode]
  rw [hvisits, List.append_assoc, List.singleton_append]

end Arena

theorem Part.ids_eq_children (part : Part) :
    part.ids = part.id :: part.children.reverse.flatMap Part.ids := by
  unfold Part.ids
  rw [Part.fold_eq]
  congr 1
  rw [Part.children, List.reverse_flatMap, List.flatMap_assoc, ← List.map_reverse,
    ← List.flatMap_def]
  congr 1
  funext slot
  rw [Slot.fold_eq, ← List.map_reverse, ← List.flatMap_def]
  rfl

/-- **The ids that are found** at and below an item are those of the tree. -/
theorem Part.Held.visitsAs (h : part.Held a.view i) (hwf : a.WellFormed) :
    a.VisitsAs [i] part.ids := by
  induction part using Part.induct_children generalizing i with
  | step part ih =>
    obtain ⟨node, hnode, hshows⟩ := h.exists_node
    have hall : ∀ {parts : List Part} {numbers : List Nat},
        List.Forall₂ (fun c j => a.VisitsAs [j] c.ids) parts numbers →
        a.VisitsAs numbers (parts.flatMap Part.ids) := by
      intro parts numbers hnumbers
      induction hnumbers with
      | nil => exact Arena.VisitsAs.nil a
      | cons hj _ ih => exact hj.append ih
    have hchildren := hall (List.forall₂_reverse_iff.mpr
      (forall₂_imp_of_mem h.children fun c hc j hj => ih c hc hj))
    rw [part.ids_eq_children, Part.id, ← hshows.id]
    exact hchildren.cons hwf hnode

theorem Part.Held.subtreeIds (h : part.Held a.view 0) (hwf : a.WellFormed) :
    a.subtreeIds 0 = some part.ids := by
  have hne : a.items ≠ [] := List.ne_nil_of_length_pos h.lt_length
  obtain ⟨visits, hids, hvisits⟩ := h.visitsAs hwf
  have hfound : a.visitFrom (visits.length + 0) ([0] ++ []) [] = some visits := by
    rw [hvisits, Arena.visitFrom_nil, List.nil_append]
  obtain ⟨all, hall, -⟩ := Arena.visiting_start.exists_visitFrom hwf hne (Nat.le_add_left _ _)
  -- Both searches go on with as many steps as they have together, and do not change their answers.
  have hsame : all = visits := by
    have hall' := Arena.visitFrom_add hall visits.length
    have hfound' := Arena.visitFrom_add hfound a.items.length
    rw [Nat.add_zero, List.append_nil, Nat.add_comm, hall'] at hfound'
    exact Option.some.inj hfound'
  unfold Arena.subtreeIds Arena.visits
  rw [hall, hsame, ← hids]
  rfl

theorem Part.labels_eq_children (part : Part) :
    part.labels = part.label :: part.children.flatMap Part.labels := by
  rw [part.labels_eq, Part.children, List.flatMap_assoc]

/-- The ids of a tree are those of its items, in another order. -/
theorem Part.ids_perm (part : Part) : part.ids.Perm (part.labels.map Label.id) := by
  induction part using Part.induct_children with
  | step part ih =>
    rw [part.ids_eq_children, part.labels_eq_children, List.map_cons, List.map_flatMap]
    refine List.Perm.cons _ ?_
    exact (List.Perm.flatMap_right _ (List.reverse_perm _)).trans (List.Perm.flatMap_left _ ih)

theorem Part.length_ids (part : Part) : part.ids.length = part.size :=
  part.ids_perm.length_eq.trans (List.length_map _)

/-! ### Distances -/

theorem Slot.nodesOf_eq (depth : Nat) (slots : List Slot) :
    Slot.nodesOf depth slots = slots.flatMap (Slot.nodes depth) := by
  induction slots with
  | nil => rfl
  | cons s ss ih => rw [Slot.nodesOf, ih, List.flatMap_cons]

theorem Part.nodesOf_eq (depth : Nat) (slotId : Option String) (parts : List Part) :
    Part.nodesOf depth slotId parts = parts.flatMap (Part.nodes depth slotId) := by
  induction parts with
  | nil => rfl
  | cons c cs ih => rw [Part.nodesOf, ih, List.flatMap_cons]

theorem Part.mem_nodes {depth : Nat} {slotId : Option String} {node : Part.Node} :
    node ∈ part.nodes depth slotId ↔ node = ⟨depth, slotId, part⟩ ∨
      ∃ s ∈ part.slots, ∃ c ∈ s.candidates, node ∈ c.nodes (depth + 1) (some s.site.id) := by
  have hslot : ∀ s : Slot, s.nodes depth =
      s.candidates.flatMap (Part.nodes (depth + 1) (some s.site.id)) := by
    rintro ⟨site, candidates⟩
    rw [Slot.nodes, Part.nodesOf_eq]
    rfl
  obtain ⟨label, slots⟩ := part
  rw [Part.nodes, Slot.nodesOf_eq]
  simp only [List.mem_cons, List.mem_flatMap, hslot]
  exact Iff.rfl

/-- **Each item of the tree is as far from the top as it is listed.** -/
theorem Part.Held.depth_of_mem_nodes (h : part.Held a.view i) (hwf : a.WellFormed) {depth : Nat}
    (hdepth : a.depth i = some depth) {slotId : Option String} {node : Part.Node}
    (hnode : node ∈ part.nodes depth slotId) :
    ∃ j, node.part.Held a.view j ∧ a.depth j = some node.depth := by
  induction part using Part.induct_children generalizing i depth slotId with
  | step part ih =>
    rcases Part.mem_nodes.mp hnode with rfl | ⟨s, hs, c, hc, hnode⟩
    · exact ⟨i, h, hdepth⟩
    · have hmem : c ∈ part.children := Part.mem_children.mpr ⟨s, hs, hc⟩
      obtain ⟨j, hj, hheld⟩ := exists_of_forall₂ h.children.flip hmem
      have hchild := (Arena.mem_childrenOf.mp hj).parent hwf
      exact ih c hmem hheld (Arena.depth_of_parent hwf hchild hdepth) hnode

/-! ### All answers -/

/-- The answers are those that a tree gives. -/
structure Arena.Answers (a : Arena) (root : Part) : Prop where
  subtreeIds : a.subtreeIds 0 = some root.ids
  attachedCount : a.attachedCount = some root.size
  height : a.height = some root.height
  /-- Each item that is listed is held by a number that is as far from the top. -/
  depth : ∀ node ∈ root.nodes 0 none, ∃ j, node.part.Held a.view j ∧ a.depth j = some node.depth

/-- **Tables answer as the tree that they hold.** -/
theorem Part.Held.answers (h : part.Held a.view 0) (hwf : a.WellFormed) : a.Answers part where
  subtreeIds := h.subtreeIds hwf
  attachedCount := by
    unfold Arena.attachedCount
    rw [h.subtreeIds hwf, ← part.length_ids]
    rfl
  height := h.height hwf
  depth node hnode := by
    have hne : a.items ≠ [] := List.ne_nil_of_length_pos h.lt_length
    exact h.depth_of_mem_nodes hwf (Arena.depth_top hwf hne) hnode

end Gunsmith
