/-
  Where an item stands in a tree.

  An item stands at the end of a chain (`Part.Stands`): the placements on the way to it from
  the top, the last one first.  The length of the chain is the distance from the top, so the
  height of a tree is bounded by the lengths of the chains in it (`Part.height_le_of_stands`).

  In an expansion, whatever stands at the end of a chain was itself expanded, with what the
  chain leaves of the depth, and the cycle guard looked at this very chain
  (`ExpandedAt.of_stands`).  So a tree is known from what one level of the expansion does
  (`ExpandedAt.candidate`).  Putting candidates into order and dropping some of them keeps
  the chains of the others (`Trimming.stands`).
-/
import Gunsmith.Proofs.Tree.CutAlike

namespace Gunsmith

/-! ### Chains -/

/-- The item stands in the tree at the end of the chain. -/
inductive Part.Stands (top : Part) : List Placement → Part → Prop
  | top : Stands top [] top
  | mount {chain : List Placement} {part d : Part} {s : Slot} (h : Stands top chain part)
    (hs : s ∈ part.slots) (hd : d ∈ s.candidates) : Stands top (⟨d.id, s.site.id⟩ :: chain) d

namespace Part

variable {top part x : Part} {chain : List Placement} {s : Slot} {n : Nat}

/-- What stands below a candidate stands below the item that has the slot. -/
theorem Stands.prepend (hs : s ∈ top.slots) (hpart : part ∈ s.candidates)
    (h : part.Stands chain x) : top.Stands (chain ++ [⟨part.id, s.site.id⟩]) x := by
  induction h with
  | top => exact Stands.top.mount hs hpart
  | mount _ hs' hd ih => exact ih.mount hs' hd

theorem height_eq (part : Part) :
    part.height = (part.slots.map fun s =>
      (s.candidates.map fun d => d.height + 1).foldl max 0).foldl max 0 := by
  unfold height
  rw [fold_eq]
  congr 1
  refine List.map_congr_left fun s _ => ?_
  rw [Slot.fold_eq, List.map_map]
  rfl

/-- The greatest of some numbers is bounded by what bounds them all. -/
theorem foldl_max_le {xs : List Nat} (h : ∀ m ∈ xs, m ≤ n) : ∀ {m : Nat}, m ≤ n →
    xs.foldl max m ≤ n := by
  induction xs with
  | nil => exact fun hm => hm
  | cons x xs ih =>
    intro m hm
    rw [List.foldl_cons]
    exact ih (fun k hk => h k (List.mem_cons_of_mem _ hk))
      (Nat.max_le.mpr ⟨hm, h x List.mem_cons_self⟩)

/-- A tree is no higher than its longest chain. -/
theorem height_le_of_stands (h : ∀ chain x, part.Stands chain x → chain.length ≤ n) :
    part.height ≤ n := by
  induction part using induct_slots generalizing n with
  | step part ih =>
    rw [height_eq]
    refine foldl_max_le (fun m hm => ?_) (Nat.zero_le n)
    obtain ⟨s, hs, rfl⟩ := List.mem_map.mp hm
    refine foldl_max_le (fun k hk => ?_) (Nat.zero_le n)
    obtain ⟨d, hd, rfl⟩ := List.mem_map.mp hk
    -- Chains from the candidate are shorter by one than chains from the item.
    have hlength : ∀ chain x, d.Stands chain x → chain.length + 1 ≤ n := by
      intro chain x hx
      have hle := h _ _ (hx.prepend hs hd)
      rwa [List.length_append, List.length_singleton] at hle
    have hone := hlength [] d Stands.top
    have hheight : d.height ≤ n - 1 := ih s hs d hd fun chain x hx => by
      have hle := hlength chain x hx
      omega
    rw [List.length_nil] at hone
    omega

/-- Nothing is closed in a tree if nothing that stands in it is marked. -/
theorem truncated_eq_false_of_stands (h : ∀ chain x, part.Stands chain x → x.label.cut = false) :
    part.truncated = false := by
  induction part using induct_slots with
  | step part ih =>
    refine truncated_eq_false_iff.mpr ⟨h [] part Stands.top, fun s hs d hd => ?_⟩
    exact ih s hs d hd fun chain x hx => h _ x (hx.prepend hs hd)

end Part

/-- Whatever stands in a trimmed tree stood in the tree, at the end of the same chain. -/
theorem Trimming.stands {f : Part → Part} {g : Slot → Slot} (h : Trimming f g)
    (hsite : ∀ s, (g s).site.id = s.site.id) {top y : Part} {chain : List Placement}
    (hy : (f top).Stands chain y) : ∃ x, top.Stands chain x ∧ f x = y := by
  induction hy with
  | top => exact ⟨top, Part.Stands.top, rfl⟩
  | mount _ hs hd ih =>
    obtain ⟨x, hx, rfl⟩ := ih
    rw [h.slots] at hs
    obtain ⟨t, ht, rfl⟩ := List.mem_map.mp hs
    obtain ⟨e, he, rfl⟩ := h.mem_candidates hd
    rw [h.id, hsite]
    exact ⟨e, hx.mount ht he, rfl⟩

/-! ### Chains in an expansion -/

/-- The catalogue lets the item of a placement fit its slot. -/
def Placement.Fits (p : Provider Id) (placement : Placement) : Prop :=
  ∃ allowed, p.allowed placement.slotId = .ok allowed ∧
    ∃ item ∈ allowed, item.id = placement.itemId

/-- The item was expanded at the end of the chain, with some depth left. -/
def ExpandedAt (p : Provider Id) (c : Constraints) (depth : Nat) (chain : List Placement)
    (part : Part) : Prop :=
  ∃ address label, label.cut = false ∧
    (expand p c depth chain address label).run = Except.ok part

/-- The item is a candidate for the slot at the end of the chain: it fits, carries what the
catalogue says of it, and its placement is new. -/
structure Part.MountedIn (p : Provider Id) (chain : List Placement) (slotId : String)
    (part : Part) : Prop where
  fits : ∃ allowed, p.allowed slotId = .ok allowed ∧ ⟨part.id, part.label.name⟩ ∈ allowed
  faithful : ∃ found, part.Faithful p found
  new : ⟨part.id, slotId⟩ ∉ chain

namespace ExpandedAt

variable {p : Provider Id} {c : Constraints} {depth : Nat} {chain chain₀ : List Placement}
  {top part d x : Part} {s : Slot}

/-- **One level of an expansion**: a candidate was mounted and expanded in turn, with one level less
and with its placement on the chain. -/
theorem candidate (h : ExpandedAt p c depth chain part) (hs : s ∈ part.slots)
    (hd : d ∈ s.candidates) :
    ∃ depth', depth = depth' + 1 ∧ ExpandedAt p c depth' (⟨d.id, s.site.id⟩ :: chain) d ∧
      d.MountedIn p chain s.site.id := by
  obtain ⟨address, label, hcut, h⟩ := h
  obtain ⟨depth', row, i, allowed, verdicts, rfl, hslot⟩ := expand_slot h hs
  obtain ⟨item, hitem, j, hsettled⟩ := hslot.settled_of_mem hd
  have hid : s.site.id = row.id := by rw [hslot.site]
  cases hsettled with
  | mounted hcons hx =>
    cases hcons with
    | @mounted _ found _ _ _ hnew hfound =>
      obtain ⟨cut, hlabel⟩ := expand_label hx
      have hdid : d.id = item.id := by rw [Part.id, hlabel]; rfl
      have hname : d.label.name = item.name := by rw [hlabel]; rfl
      refine ⟨depth', rfl, ⟨j :: i :: address, item.label found, rfl, ?_⟩,
        ⟨allowed, ?_, ?_⟩, ⟨found, ?_, ?_, ?_⟩, ?_⟩
      · rw [hdid, hid]
        exact hx
      · rw [hid]
        exact hslot.read
      · rw [hdid, hname]
        exact hitem
      · rw [hdid]
        exact hfound
      · rw [hlabel]
        rfl
      · rw [hlabel]
        rfl
      · rw [hdid, hid]
        exact hnew

/-- **Whatever stands in an expansion** was expanded at the end of its chain, with the depth that
the chain leaves. -/
theorem of_stands (h : ExpandedAt p c depth chain₀ top) (hx : top.Stands chain x) :
    ∃ rest, rest + chain.length = depth ∧ ExpandedAt p c rest (chain ++ chain₀) x := by
  induction hx with
  | top => exact ⟨depth, rfl, h⟩
  | mount _ hs hd ih =>
    obtain ⟨rest, hrest, hpart⟩ := ih
    obtain ⟨rest', rfl, hd', -⟩ := hpart.candidate hs hd
    refine ⟨rest', ?_, hd'⟩
    rw [List.length_cons]
    omega

/-- An item is marked only where the depth is used up. -/
theorem cut_eq_false (h : ExpandedAt p c (depth + 1) chain part) : part.label.cut = false := by
  obtain ⟨address, label, hcut, h⟩ := h
  obtain ⟨rows, slots, -, rfl, -⟩ := expand_succ_ok h
  exact hcut

end ExpandedAt

end Gunsmith
