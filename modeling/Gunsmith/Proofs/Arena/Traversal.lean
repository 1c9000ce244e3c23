/-
  Tables in order hold a strict tree.

  From the links of well-formed tables it follows that ways up and ways down end, and where.
  Upwards the numbers of items fall (`Arena.Parent.lt`), so the ways up end at the weapon, and
  depths and the search for a repeated placement are found by strong induction on the number of
  the item (`WellFormed.exists_depthFrom`, `WellFormed.exists_placedAbove`).

  Downwards an item may be visited when it is taken from the stack.  The visit keeps a property
  of stack and visited items (`Visiting`): no item is in the two lists twice, their items are
  attached, and the children of a visited item are in one of them.  A child cannot be there
  before its parent is visited, so taking an item from the stack keeps the property
  (`Visiting.step`); and every step visits another item, of which there are finitely many.

  What it all comes to is `Arena.StrictTree`.
-/
import Gunsmith.Proofs.Arena.WellFormed
import Gunsmith.Proofs.Tree.Expanded
import Mathlib.Data.Set.Card
import Mathlib.Logic.Relation
import Mathlib.Order.Bounds.Basic

namespace Gunsmith

theorem mapM_of_forall₂ {α β : Type} {f : α → Option β} {xs : List α} {ys : List β}
    (h : List.Forall₂ (fun x y => f x = some y) xs ys) : xs.mapM f = some ys := by
  induction h with
  | nil => rfl
  | cons hxy _ ih =>
    rw [List.mapM_cons]
    simp [hxy, ih]

/-- Lookups that all succeed succeed together. -/
theorem exists_mapM {α β : Type} {f : α → Option β} {R : α → β → Prop} {xs : List α}
    (hf : ∀ x ∈ xs, ∃ y, f x = some y ∧ R x y) :
    ∃ ys, xs.mapM f = some ys ∧ List.Forall₂ R xs ys := by
  have hall : ∃ ys, List.Forall₂ (fun x y => f x = some y ∧ R x y) xs ys := by
    induction xs with
    | nil => exact ⟨[], List.Forall₂.nil⟩
    | cons x xs ih =>
      obtain ⟨y, hy⟩ := hf x List.mem_cons_self
      obtain ⟨ys, hys⟩ := ih fun z hz => hf z (List.mem_cons_of_mem _ hz)
      exact ⟨y :: ys, List.Forall₂.cons hy hys⟩
  obtain ⟨ys, hys⟩ := hall
  exact ⟨ys, mapM_of_forall₂ (hys.imp fun _ _ h => h.1), hys.imp fun _ _ h => h.2⟩

/-- The greatest of some numbers and a starting one is one of them, and none is greater. -/
theorem foldl_max_spec (xs : List Nat) (m : Nat) :
    (xs.foldl max m = m ∨ xs.foldl max m ∈ xs) ∧ m ≤ xs.foldl max m ∧
      ∀ x ∈ xs, x ≤ xs.foldl max m := by
  induction xs generalizing m with
  | nil => simp
  | cons x xs ih =>
    obtain ⟨hcases, hle, hall⟩ := ih (max m x)
    rw [List.foldl_cons]
    refine ⟨?_, by omega, fun y hy => ?_⟩
    · rcases hcases with heq | hmem
      · rcases Nat.le_total m x with hmx | hmx
        · rw [heq, Nat.max_eq_right hmx]
          exact Or.inr List.mem_cons_self
        · rw [heq, Nat.max_eq_left hmx]
          exact Or.inl rfl
      · exact Or.inr (List.mem_cons_of_mem _ hmem)
    · rcases List.mem_cons.mp hy with rfl | hy'
      · omega
      · exact hall y hy'

namespace Arena

/-! ### Parents and children -/

/-- The item `c` is a candidate for a slot of item `i`. -/
def Child (a : Arena) (i c : Nat) : Prop := ∃ s ∈ a.slotsOf i, c ∈ a.candidatesOf s

/-- The item stands in a slot of item `p`, so far as the item and the slot say. -/
def Parent (a : Arena) (i p : Nat) : Prop := ∃ s, a.parentOf i = some s ∧ a.ownerOf s = some p

/-- The item is attached to the tree: it is the weapon, or reached from it through candidates. -/
def Attached (a : Arena) (i : Nat) : Prop := Relation.ReflTransGen a.Child 0 i

variable {a : Arena} {i j c p q s : Nat}

theorem Parent.unique (h : a.Parent i p) (h' : a.Parent i q) : p = q := by
  obtain ⟨s, hs, hp⟩ := h
  obtain ⟨t, ht, hq⟩ := h'
  obtain rfl : s = t := Option.some.inj (hs.symm.trans ht)
  exact Option.some.inj (hp.symm.trans hq)

section WellFormed

variable (h : a.WellFormed)

include h

theorem Child.parent (hc : a.Child i c) : a.Parent c i := by
  obtain ⟨s, hs, hc⟩ := hc
  exact ⟨s, h.placed s c hc, (h.owned i s).mp hs⟩

theorem Parent.ne_zero (hp : a.Parent i p) : i ≠ 0 := by
  rintro rfl
  obtain ⟨s, hs, -⟩ := hp
  rw [h.top] at hs
  cases hs

/-- Upwards the numbers fall. -/
theorem Parent.lt (hp : a.Parent i p) : p < i := by
  have hi : i < a.items.length := by
    obtain ⟨s, hs, -⟩ := hp
    exact lt_of_parentOf hs
  obtain ⟨s, q, hs, hq, hlt⟩ := h.above i (hp.ne_zero h) hi
  rwa [hp.unique ⟨s, hs, hq⟩]

theorem Child.lt (hc : a.Child i c) : i < c := (hc.parent h).lt h

theorem Child.lt_length (hc : a.Child i c) : c < a.items.length := by
  obtain ⟨s, -, hc⟩ := hc
  exact h.lt_of_mem_candidatesOf hc

theorem exists_parent (hi : i ≠ 0) (hlt : i < a.items.length) : ∃ p, a.Parent i p := by
  obtain ⟨s, p, hs, hp, -⟩ := h.above i hi hlt
  exact ⟨p, s, hs, hp⟩

theorem Attached.lt_length (hne : a.items ≠ []) (hi : a.Attached i) : i < a.items.length := by
  rcases Relation.ReflTransGen.cases_tail hi with rfl | ⟨p, -, hc⟩
  · exact List.length_pos_iff.mpr hne
  · exact hc.lt_length h

/-- An attached item is the weapon, or a candidate for a slot of an attached item. -/
theorem Attached.exists_slot (hi : a.Attached i) (hne : i ≠ 0) :
    ∃ s p, i ∈ a.candidatesOf s ∧ a.parentOf i = some s ∧ a.ownerOf s = some p ∧ a.Attached p := by
  rcases Relation.ReflTransGen.cases_tail hi with rfl | ⟨p, hp, s, hs, hc⟩
  · exact absurd rfl hne
  · exact ⟨s, p, hc, h.placed s i hc, (h.owned p s).mp hs, hp⟩

/-! ### Listed once -/

/-- A slot is listed once, by the item that it names. -/
theorem count_slots (hs : s < a.slots.length) :
    (a.items.flatMap ItemNode.slots).count s = 1 ∧ ∃ p, a.ownerOf s = some p ∧ s ∈ a.slotsOf p := by
  -- Two items that list the same slot are both the one that the slot names.
  have hnodup : (a.items.flatMap ItemNode.slots).Nodup := by
    refine List.nodup_flatMap.mpr ⟨fun node hnode => ?_, List.pairwise_iff_getElem.mpr ?_⟩
    · obtain ⟨i, hi, rfl⟩ := List.getElem_of_mem hnode
      rw [← slotsOf_of_getElem? (List.getElem?_eq_getElem hi)]
      exact h.slots_nodup i
    · intro i j hi hj hij t hti htj
      rw [← slotsOf_of_getElem? (List.getElem?_eq_getElem hi), h.owned] at hti
      rw [← slotsOf_of_getElem? (List.getElem?_eq_getElem hj), h.owned] at htj
      have heq : i = j := Option.some.inj (hti.symm.trans htj)
      omega
  have howner := ownerOf_of_getElem? (List.getElem?_eq_getElem hs)
  have hlisted : s ∈ a.slotsOf a.slots[s].parentItem := (h.owned _ s).mpr howner
  refine ⟨List.count_eq_one_of_mem hnodup (List.mem_flatMap.mpr ?_), _, howner, hlisted⟩
  have hlt := lt_of_mem_slotsOf hlisted
  rw [slotsOf_of_getElem? (List.getElem?_eq_getElem hlt)] at hlisted
  exact ⟨_, List.getElem_mem hlt, hlisted⟩

/-- An item that is a candidate is listed once, by the slot that it names. -/
theorem count_candidates (hi : i ∈ a.candidatesOf s) :
    (a.slots.flatMap SlotNode.candidates).count i = 1 := by
  have hnodup : (a.slots.flatMap SlotNode.candidates).Nodup := by
    refine List.nodup_flatMap.mpr ⟨fun slot hslot => ?_, List.pairwise_iff_getElem.mpr ?_⟩
    · obtain ⟨t, ht, rfl⟩ := List.getElem_of_mem hslot
      rw [← candidatesOf_of_getElem? (List.getElem?_eq_getElem ht)]
      exact h.candidates_nodup t
    · intro t u ht hu htu j hjt hju
      rw [← candidatesOf_of_getElem? (List.getElem?_eq_getElem ht)] at hjt
      rw [← candidatesOf_of_getElem? (List.getElem?_eq_getElem hu)] at hju
      have heq : t = u := Option.some.inj ((h.placed t j hjt).symm.trans (h.placed u j hju))
      omega
  refine List.count_eq_one_of_mem hnodup (List.mem_flatMap.mpr ?_)
  have hlt := lt_of_mem_candidatesOf hi
  rw [candidatesOf_of_getElem? (List.getElem?_eq_getElem hlt)] at hi
  exact ⟨_, List.getElem_mem hlt, hi⟩

/-! ### The way up -/

/-- The way up from an attached item leads over attached items to the weapon, and the numbers fall
on it. -/
theorem Attached.climbs (hi : a.Attached i) :
    Relation.ReflTransGen (fun j p => a.Parent j p ∧ p < j ∧ a.Attached p) i 0 := by
  induction i using Nat.strong_induction_on with
  | _ i ih =>
    by_cases hzero : i = 0
    · rw [hzero]
    · obtain ⟨s, p, -, hs, howner, hp⟩ := hi.exists_slot h hzero
      have hparent : a.Parent i p := ⟨s, hs, howner⟩
      have hlt := hparent.lt h
      exact Relation.ReflTransGen.head ⟨hparent, hlt, hp⟩ (ih p hlt hp)

omit h in
theorem depthFrom_of_parent (hp : a.Parent i p) (steps taken : Nat) :
    a.depthFrom (steps + 1) i taken = a.depthFrom steps p (taken + 1) := by
  obtain ⟨s, hs, howner⟩ := hp
  obtain ⟨node, hnode, hparent⟩ := parentOf_eq_some.mp hs
  obtain ⟨slot, hslot, rfl⟩ := ownerOf_eq_some.mp howner
  rw [depthFrom]
  simp [hnode, hparent, hslot]

theorem depthFrom_top (hne : a.items ≠ []) (steps taken : Nat) :
    a.depthFrom (steps + 1) 0 taken = some taken := by
  have hnode := List.getElem?_eq_getElem (List.length_pos_iff.mpr hne)
  have htop := h.top
  rw [parentOf_of_getElem? hnode] at htop
  rw [depthFrom]
  simp [hnode, htop]

/-- The way up ends, after a number of steps that depends on nothing but the item. -/
theorem exists_depthFrom (hi : i < a.items.length) :
    ∃ d, ∀ steps taken, i < steps → a.depthFrom steps i taken = some (taken + d) := by
  have hne : a.items ≠ [] := List.ne_nil_of_length_pos (by omega)
  induction i using Nat.strong_induction_on with
  | _ i ih =>
    by_cases hzero : i = 0
    · subst hzero
      refine ⟨0, fun steps taken hsteps => ?_⟩
      obtain ⟨steps, rfl⟩ : ∃ k, steps = k + 1 := ⟨steps - 1, by omega⟩
      exact depthFrom_top h hne steps taken
    · obtain ⟨p, hp⟩ := exists_parent h hzero hi
      have hlt := hp.lt h
      obtain ⟨d, hd⟩ := ih p hlt (by omega)
      refine ⟨d + 1, fun steps taken hsteps => ?_⟩
      obtain ⟨steps, rfl⟩ : ∃ k, steps = k + 1 := ⟨steps - 1, by omega⟩
      rw [depthFrom_of_parent hp, hd steps _ (by omega)]
      congr 1
      omega

theorem depth_top (hne : a.items ≠ []) : a.depth 0 = some 0 := by
  have hpos := List.length_pos_iff.mpr hne
  obtain ⟨steps, hsteps⟩ : ∃ k, a.items.length = k + 1 := ⟨a.items.length - 1, by omega⟩
  unfold depth
  rw [hsteps]
  exact depthFrom_top h hne steps 0

theorem exists_depth (hi : i < a.items.length) : ∃ d, a.depth i = some d := by
  obtain ⟨d, hd⟩ := exists_depthFrom h hi
  exact ⟨_, hd _ 0 hi⟩

/-- A child is one step further down than its parent. -/
theorem depth_of_parent (hp : a.Parent i p) {d : Nat} (hd : a.depth p = some d) :
    a.depth i = some (d + 1) := by
  have hi : i < a.items.length := by
    obtain ⟨s, hs, -⟩ := hp
    exact lt_of_parentOf hs
  have hlt := hp.lt h
  obtain ⟨e, he⟩ := exists_depthFrom h (hlt.trans hi)
  have hsame : some (0 + e) = some d := (he _ 0 (hlt.trans hi)).symm.trans hd
  rw [Option.some.injEq] at hsame
  -- The question is asked for one step fewer at the parent, which is enough there as well.
  obtain ⟨steps, hsteps⟩ : ∃ k, a.items.length = k + 1 := ⟨a.items.length - 1, by omega⟩
  unfold depth
  rw [hsteps, depthFrom_of_parent hp, he steps _ (by omega)]
  congr 1
  omega

theorem exists_placedAbove (itemId slotId : String) (hi : i < a.items.length) :
    ∃ found, ∀ steps, i < steps → a.placedAbove itemId slotId steps i = some found := by
  induction i using Nat.strong_induction_on with
  | _ i ih =>
    by_cases hzero : i = 0
    · subst hzero
      have htop := h.top
      rw [parentOf_of_getElem? (List.getElem?_eq_getElem hi)] at htop
      refine ⟨false, fun steps hsteps => ?_⟩
      obtain ⟨steps, rfl⟩ : ∃ k, steps = k + 1 := ⟨steps - 1, by omega⟩
      rw [placedAbove]
      simp [List.getElem?_eq_getElem hi, htop]
    · obtain ⟨p, hp⟩ := exists_parent h hzero hi
      have hlt := hp.lt h
      obtain ⟨found, hfound⟩ := ih p hlt (by omega)
      obtain ⟨s, hs, howner⟩ := hp
      obtain ⟨node, hnode, hparent⟩ := parentOf_eq_some.mp hs
      obtain ⟨slot, hslot, rfl⟩ := ownerOf_eq_some.mp howner
      by_cases hhere : node.id = itemId ∧ slot.id = slotId
      · refine ⟨true, fun steps hsteps => ?_⟩
        obtain ⟨steps, rfl⟩ : ∃ k, steps = k + 1 := ⟨steps - 1, by omega⟩
        rw [placedAbove]
        simp [hnode, hparent, hslot, hhere]
      · refine ⟨found, fun steps hsteps => ?_⟩
        obtain ⟨steps, rfl⟩ : ∃ k, steps = k + 1 := ⟨steps - 1, by omega⟩
        rw [placedAbove]
        simp [hnode, hparent, hslot, hhere, hfound steps (by omega)]

/-- The search for a repeated placement ends. -/
theorem exists_createsCycle (hs : s < a.slots.length) (itemId : String) :
    ∃ found, a.createsCycle s itemId = some found := by
  have howner := ownerOf_of_getElem? (List.getElem?_eq_getElem hs)
  have hlt := h.lt_of_ownerOf howner
  obtain ⟨found, hfound⟩ := exists_placedAbove h itemId a.slots[s].id hlt
  refine ⟨found, ?_⟩
  unfold createsCycle
  simp [List.getElem?_eq_getElem hs, hfound _ hlt]

/-! ### The way down -/

/-- The candidates for the slots of an item, slot by slot. -/
def childrenOf (a : Arena) (i : Nat) : List Nat := (a.slotsOf i).flatMap a.candidatesOf

omit h in
theorem mem_childrenOf : c ∈ a.childrenOf i ↔ a.Child i c := List.mem_flatMap

theorem nodup_childrenOf (i : Nat) : (a.childrenOf i).Nodup := by
  refine List.nodup_flatMap.mpr ⟨fun s _ => h.candidates_nodup s, ?_⟩
  refine (h.slots_nodup i).imp fun hst c hs ht => hst ?_
  exact Option.some.inj ((h.placed _ c hs).symm.trans (h.placed _ c ht))

omit h in
theorem flatMap_candidates {ss : List Nat} {slots : List SlotNode}
    (hall : List.Forall₂ (fun s slot => a.slots[s]? = some slot) ss slots) :
    slots.flatMap SlotNode.candidates = ss.flatMap a.candidatesOf := by
  induction hall with
  | nil => rfl
  | cons hs _ ih => rw [List.flatMap_cons, List.flatMap_cons, candidatesOf_of_getElem? hs, ih]

/-- Looking up the slots of an item brings its children. -/
theorem below_eq {node : ItemNode} (hnode : a.items[i]? = some node) :
    a.below node = some (a.childrenOf i) := by
  have hfound : ∀ s ∈ node.slots, ∃ slot, a.slots[s]? = some slot ∧ a.slots[s]? = some slot := by
    intro s hs
    rw [← slotsOf_of_getElem? hnode, h.owned] at hs
    exact ⟨_, List.getElem?_eq_getElem (lt_of_ownerOf hs), List.getElem?_eq_getElem _⟩
  obtain ⟨slots, hslots, hall⟩ := exists_mapM hfound
  unfold below childrenOf
  rw [slotsOf_of_getElem? hnode, hslots, ← flatMap_candidates hall]
  rfl

/-- What holds of a visit at any time: no item is visited or on the stack twice, and those that
are belong together. -/
structure Visiting (a : Arena) (stack : List Nat) (visited : List (Nat × ItemNode)) : Prop where
  nodup : (visited.map Prod.fst ++ stack).Nodup
  nodes : ∀ v ∈ visited, a.items[v.1]? = some v.2
  attached : ∀ i ∈ visited.map Prod.fst ++ stack, a.Attached i
  children : ∀ i ∈ visited.map Prod.fst, ∀ c, a.Child i c → c ∈ visited.map Prod.fst ++ stack
  /-- Only the weapon is there before its parent has been visited. -/
  parents : ∀ c ∈ visited.map Prod.fst ++ stack, c = 0 ∨ ∃ i ∈ visited.map Prod.fst, a.Child i c
  top : 0 ∈ visited.map Prod.fst ++ stack

omit h in
theorem visiting_start : Visiting a [0] [] where
  nodup := List.nodup_singleton 0
  nodes _ hv := absurd hv List.not_mem_nil
  attached i hi := by
    rw [List.mem_singleton.mp hi]
    exact Relation.ReflTransGen.refl
  children _ hi := absurd hi List.not_mem_nil
  parents c hc := Or.inl (List.mem_singleton.mp hc)
  top := List.mem_singleton_self 0

/-- Taking an item from the stack. -/
theorem Visiting.step {rest : List Nat} {visited : List (Nat × ItemNode)} {node : ItemNode}
    (hv : Visiting a (i :: rest) visited) (hnode : a.items[i]? = some node) :
    Visiting a ((a.childrenOf i).reverse ++ rest) (visited ++ [(i, node)]) := by
  have hi : i ∉ visited.map Prod.fst := fun hmem =>
    List.disjoint_of_nodup_append hv.nodup hmem List.mem_cons_self
  -- A child that was there before would have had its parent visited, which is visited only now.
  have hchildren : ∀ c ∈ a.childrenOf i, c ∉ visited.map Prod.fst ++ i :: rest := by
    intro c hc hmem
    have hparent := (mem_childrenOf.mp hc).parent h
    rcases hv.parents c hmem with rfl | ⟨j, hj, hjc⟩
    · exact hparent.ne_zero h rfl
    · rw [(hjc.parent h).unique hparent] at hj
      exact hi hj
  have hperm : ((visited ++ [(i, node)]).map Prod.fst ++ ((a.childrenOf i).reverse ++ rest)).Perm
      (visited.map Prod.fst ++ i :: rest ++ a.childrenOf i) := by
    rw [List.map_append, List.map_singleton, List.append_assoc, List.append_assoc]
    refine List.Perm.append_left _ ?_
    rw [List.singleton_append, List.cons_append]
    exact ((List.reverse_perm _).append_right rest |>.trans List.perm_append_comm).cons i
  have hmem : ∀ c, c ∈ (visited ++ [(i, node)]).map Prod.fst ++ ((a.childrenOf i).reverse ++ rest) ↔
      c ∈ visited.map Prod.fst ++ i :: rest ∨ a.Child i c := by
    intro c
    rw [hperm.mem_iff, List.mem_append, mem_childrenOf]
  have hvisited : ∀ j, j ∈ (visited ++ [(i, node)]).map Prod.fst ↔
      j ∈ visited.map Prod.fst ∨ j = i := by
    intro j
    rw [List.map_append, List.mem_append, List.map_singleton, List.mem_singleton]
  exact {
    nodup := hperm.nodup_iff.mpr <|
      List.nodup_append'.mpr ⟨hv.nodup, nodup_childrenOf h i, fun c hc hc' => hchildren c hc' hc⟩
    nodes := fun v hmem' => by
      rcases List.mem_append.mp hmem' with hold | hnew
      · exact hv.nodes v hold
      · rw [List.mem_singleton.mp hnew]
        exact hnode
    attached := fun c hc => by
      rcases (hmem c).mp hc with hold | hchild
      · exact hv.attached c hold
      · have hi' : a.Attached i :=
          hv.attached i (List.mem_append_right _ List.mem_cons_self)
        exact Relation.ReflTransGen.tail hi' hchild
    children := fun j hj c hc => by
      rw [hmem]
      rcases (hvisited j).mp hj with hold | rfl
      · exact Or.inl (hv.children j hold c hc)
      · exact Or.inr hc
    parents := fun c hc => by
      rcases (hmem c).mp hc with hold | hchild
      · rcases hv.parents c hold with hzero | ⟨j, hj, hjc⟩
        · exact Or.inl hzero
        · exact Or.inr ⟨j, (hvisited j).mpr (Or.inl hj), hjc⟩
      · exact Or.inr ⟨i, (hvisited i).mpr (Or.inr rfl), hchild⟩
    top := (hmem 0).mpr (Or.inl hv.top) }

/-- Fewer items than there are have been visited while the stack is not empty. -/
theorem Visiting.length_lt (hne : a.items ≠ []) {rest : List Nat}
    {visited : List (Nat × ItemNode)} (hv : Visiting a (i :: rest) visited) :
    visited.length < a.items.length := by
  -- The items visited and the top of the stack are all different, and none is beyond the table.
  have hsub : visited.map Prod.fst ++ i :: rest ⊆ List.range a.items.length := fun j hj =>
    List.mem_range.mpr ((hv.attached j hj).lt_length h hne)
  have hlength := (List.subperm_of_subset hv.nodup hsub).length_le
  simp only [List.length_append, List.length_map, List.length_cons, List.length_range] at hlength
  omega

theorem visitFrom_cons {node : ItemNode} (hnode : a.items[i]? = some node) (steps : Nat)
    (rest : List Nat) (visited : List (Nat × ItemNode)) :
    a.visitFrom (steps + 1) (i :: rest) visited =
      a.visitFrom steps ((a.childrenOf i).reverse ++ rest) (visited ++ [(i, node)]) := by
  rw [visitFrom]
  simp [hnode, below_eq h hnode]

/-- A visit ends, after as many steps as there are items to visit. -/
theorem Visiting.exists_visitFrom (hne : a.items ≠ []) {stack : List Nat}
    {visited : List (Nat × ItemNode)} (hv : Visiting a stack visited) {steps : Nat}
    (hsteps : a.items.length ≤ visited.length + steps) :
    ∃ all, a.visitFrom steps stack visited = some all ∧ Visiting a [] all := by
  induction steps generalizing stack visited with
  | zero =>
    cases stack with
    | nil => exact ⟨visited, rfl, hv⟩
    | cons i rest =>
      have hlt := hv.length_lt h hne
      omega
  | succ steps ih =>
    cases stack with
    | nil => exact ⟨visited, rfl, hv⟩
    | cons i rest =>
      have hi := (hv.attached i (List.mem_append_right _ List.mem_cons_self)).lt_length h hne
      have hnode := List.getElem?_eq_getElem hi
      have hlength : (visited ++ [(i, a.items[i])]).length = visited.length + 1 :=
        List.length_append
      rw [visitFrom_cons h hnode]
      exact ih (hv.step h hnode) (by omega)

omit h in
/-- When the stack is empty, exactly the attached items have been visited. -/
theorem Visiting.mem_iff {visited : List (Nat × ItemNode)} (hv : Visiting a [] visited) :
    i ∈ visited.map Prod.fst ↔ a.Attached i := by
  have hall : visited.map Prod.fst ++ [] = visited.map Prod.fst := List.append_nil _
  constructor
  · exact fun hi => hv.attached i (hall.symm ▸ hi)
  · intro hi
    induction hi with
    | refl => exact hall ▸ hv.top
    | tail _ hc ih => exact hall ▸ hv.children _ ih _ hc

/-! ### The height -/

/-- The height of an item is the greatest distance of an item below it. -/
def Reaches (a : Arena) (i height : Nat) : Prop :=
  ∀ d, a.depth i = some d →
    (∃ j, Relation.ReflTransGen a.Child i j ∧ a.depth j = some (d + height)) ∧
      ∀ j e, Relation.ReflTransGen a.Child i j → a.depth j = some e → e ≤ d + height

/-- What is below an item is the item itself, or below a child. -/
theorem reaches_of_children {ks : List Nat}
    (hchildren : List.Forall₂ a.Reaches (a.childrenOf i) ks) :
    a.Reaches i ((ks.map (1 + ·)).foldl max 0) := by
  intro d hd
  obtain ⟨hcases, -, hall⟩ := foldl_max_spec (ks.map (1 + ·)) 0
  generalize (ks.map (1 + ·)).foldl max 0 = top at hcases hall
  -- Depths below a child are counted from one step further down.
  have hdepth : ∀ c, a.Child i c → a.depth c = some (d + 1) := fun c hc =>
    depth_of_parent h (hc.parent h) hd
  constructor
  · rcases hcases with rfl | hmem
    · exact ⟨i, Relation.ReflTransGen.refl, hd⟩
    · obtain ⟨k, hk, rfl⟩ := List.mem_map.mp hmem
      obtain ⟨c, hc, hreaches⟩ := exists_of_forall₂ hchildren hk
      have hchild := mem_childrenOf.mp hc
      obtain ⟨j, hj, hdj⟩ := (hreaches _ (hdepth c hchild)).1
      refine ⟨j, Relation.ReflTransGen.head hchild hj, ?_⟩
      rw [hdj]
      congr 1
      omega
  · intro j e hj he
    rcases Relation.ReflTransGen.cases_head hj with rfl | ⟨c, hc, hcj⟩
    · have heq : d = e := Option.some.inj (hd.symm.trans he)
      omega
    · obtain ⟨k, hk, hreaches⟩ := exists_of_forall₂ hchildren.flip (mem_childrenOf.mpr hc)
      have hle := (hreaches _ (hdepth c hc)).2 j e hcj he
      have hmax := hall _ (List.mem_map_of_mem hk)
      omega

/-- The height of an item follows from those of its children. -/
theorem heightFrom_of_children {node : ItemNode} (hnode : a.items[i]? = some node) {steps : Nat}
    {ks : List Nat} (hks : List.Forall₂ (fun c k => a.heightFrom steps c = some k)
      (a.childrenOf i) ks) :
    a.heightFrom (steps + 1) i = some ((ks.map (1 + ·)).foldl max 0) := by
  have hfound : (a.childrenOf i).mapM (fun c => (a.heightFrom steps c).bind fun k => some (1 + k)) =
      some (ks.map (1 + ·)) := by
    apply mapM_of_forall₂
    rw [List.forall₂_map_right_iff]
    exact hks.imp fun c k hk => by rw [hk, Option.bind_some]
  rw [heightFrom]
  simp [hnode, below_eq h hnode, hfound]

/-- Heights are found, from the last items up. -/
theorem exists_heightFrom (hi : i < a.items.length) {steps : Nat}
    (hsteps : a.items.length ≤ i + steps) :
    ∃ height, a.heightFrom steps i = some height ∧ a.Reaches i height := by
  induction steps generalizing i with
  | zero => omega
  | succ steps ih =>
    have hbelow : ∀ c ∈ a.childrenOf i, ∃ k, a.heightFrom steps c = some k ∧
        a.heightFrom steps c = some k ∧ a.Reaches c k := by
      intro c hc
      have hchild := mem_childrenOf.mp hc
      have hlt := hchild.lt h
      obtain ⟨k, hk, hreaches⟩ := ih (hchild.lt_length h) (by omega)
      exact ⟨k, hk, hk, hreaches⟩
    obtain ⟨ks, -, hks⟩ := exists_mapM hbelow
    have hheight := heightFrom_of_children h (List.getElem?_eq_getElem hi)
      (hks.imp fun _ _ hk => hk.1)
    exact ⟨_, hheight, reaches_of_children h (hks.imp fun _ _ hk => hk.2)⟩

/-! ### The tree -/

/-- The tables hold a strict tree, and the questions about it have the answers that they should. -/
structure StrictTree (a : Arena) : Prop where
  /-- The weapon comes first, and stands in no slot. -/
  top : a.items ≠ [] ∧ a.parentOf 0 = none
  /-- Every slot is listed once among the slots of all items, by the item that it names. -/
  slots : ∀ s < a.slots.length, (a.items.flatMap ItemNode.slots).count s = 1 ∧
    ∃ p, a.ownerOf s = some p ∧ s ∈ a.slotsOf p
  /-- Every other attached item is listed once among the candidates for all slots, by the slot that
  it names. -/
  candidates : ∀ i, a.Attached i → i ≠ 0 →
    (a.slots.flatMap SlotNode.candidates).count i = 1 ∧
      ∃ s, a.parentOf i = some s ∧ i ∈ a.candidatesOf s
  /-- The way up from an attached item leads to the weapon, and the numbers fall on it. -/
  climbs : ∀ i, a.Attached i →
    Relation.ReflTransGen (fun j p => a.Parent j p ∧ p < j ∧ a.Attached p) i 0
  depth : ∀ i, a.Attached i → ∃ d, a.depth i = some d
  depth_top : a.depth 0 = some 0
  depth_child : ∀ i c d, a.Attached i → a.Child i c → a.depth i = some d →
    a.depth c = some (d + 1)
  createsCycle : ∀ s < a.slots.length, ∀ itemId, ∃ found, a.createsCycle s itemId = some found
  /-- Every attached item is visited once, and its id is reported. -/
  visits : ∃ visited, a.visits 0 = some visited ∧ (visited.map Prod.fst).Nodup ∧
    (∀ i, i ∈ visited.map Prod.fst ↔ a.Attached i) ∧
    (∀ v ∈ visited, a.items[v.1]? = some v.2) ∧
    a.subtreeIds 0 = some (visited.map fun v => v.2.id)
  attachedCount : ∃ n : Nat, a.attachedCount = some n ∧ {i | a.Attached i}.encard = n
  /-- The height is the greatest depth of an attached item. -/
  height : ∃ height, a.height = some height ∧
    IsGreatest {d | ∃ i, a.Attached i ∧ a.depth i = some d} height

/-- **Well-formed tables hold a strict tree.** -/
theorem WellFormed.holdsStrictTree (hne : a.items ≠ []) : a.StrictTree where
  top := ⟨hne, h.top⟩
  slots _ hs := count_slots h hs
  candidates i hi hzero := by
    obtain ⟨s, p, hmem, hs, -, -⟩ := hi.exists_slot h hzero
    exact ⟨count_candidates h hmem, s, hs, hmem⟩
  climbs _ hi := hi.climbs h
  depth _ hi := exists_depth h (hi.lt_length h hne)
  depth_top := Arena.depth_top h hne
  depth_child _ _ _ _ hc hd := depth_of_parent h (hc.parent h) hd
  createsCycle _ hs itemId := exists_createsCycle h hs itemId
  visits := by
    obtain ⟨visited, hvisited, hdone⟩ := visiting_start.exists_visitFrom h hne
      (Nat.le_add_left _ _)
    have hnodup := hdone.nodup
    rw [List.append_nil] at hnodup
    refine ⟨visited, hvisited, hnodup, fun i => hdone.mem_iff, hdone.nodes, ?_⟩
    unfold subtreeIds visits
    rw [hvisited]
    rfl
  attachedCount := by
    obtain ⟨visited, hvisited, hdone⟩ := visiting_start.exists_visitFrom h hne
      (Nat.le_add_left _ _)
    have hnodup := hdone.nodup
    rw [List.append_nil] at hnodup
    refine ⟨visited.length, ?_, ?_⟩
    · unfold attachedCount subtreeIds visits
      rw [hvisited]
      simp
    · have hset : {i | a.Attached i} = ↑(visited.map Prod.fst).toFinset := by
        ext i
        rw [List.coe_toFinset]
        exact hdone.mem_iff.symm
      rw [hset, Set.encard_coe_eq_coe_finsetCard, List.toFinset_card_of_nodup hnodup,
        List.length_map]
  height := by
    have hzero : 0 < a.items.length := List.length_pos_iff.mpr hne
    obtain ⟨height, hheight, hreaches⟩ := exists_heightFrom h hzero (Nat.le_add_left _ _)
    obtain ⟨⟨j, hj, hdepth⟩, hgreatest⟩ := hreaches 0 (depth_top h hne)
    rw [Nat.zero_add] at hdepth
    refine ⟨height, hheight, ⟨j, hj, hdepth⟩, ?_⟩
    rintro d ⟨i, hi, hd⟩
    have hle := hgreatest i d hi hd
    omega

end WellFormed

end Arena

end Gunsmith
