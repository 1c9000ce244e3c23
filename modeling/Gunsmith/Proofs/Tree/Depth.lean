/-
  What a depth limit closes.

  At the depth limit the slots of an item stay closed, and the item is marked if it has any.
  A mark stands nowhere else (`ExpandedAt.cut_iff`), so a tree is truncated exactly if some
  item at the limit has slots in the catalogue (`CandidateTree.truncated_iff`).

  If nothing is marked, then the limit closed nothing, and the expansion with a larger limit
  takes the same steps (`CandidateTree.expansion_of_le`).  This is what allows a search to take the
  parts of a tree that is not truncated for complete ones.
-/
import Gunsmith.Proofs.Tree.Guard

namespace Gunsmith

variable {p : Provider Id} {c : Constraints} {depth depth' : Nat} {chain : List Placement}
  {address : List Nat}

/-! ### Larger limits -/

/-- What became of an item is the same under a larger limit, if its expansion is. -/
theorem Settled.of_expand {i j : Nat} {row : SlotRecord} {item : AllowedItem} {v : Verdict Part}
    (h : Settled p c depth chain address i row item j v)
    (hexpand : ∀ label part, v.part? = some part → label.cut = false →
      (expand p c depth (⟨item.id, row.id⟩ :: chain) (j :: i :: address) label).run =
        Except.ok part →
      (expand p c depth' (⟨item.id, row.id⟩ :: chain) (j :: i :: address) label).run =
        Except.ok part) :
    Settled p c depth' chain address i row item j v := by
  cases h with
  | unavailable hcons => exact Settled.unavailable hcons
  | cyclic hcons => exact Settled.cyclic hcons
  | mounted hcons hx =>
    -- A label is marked only after it was expanded.
    have hcut : ∀ {label : Label}, Considered p c chain row.id item (.mounted label) →
        label.cut = false := fun h => by cases h; rfl
    exact Settled.mounted hcons (hexpand _ _ rfl (hcut hcons) hx)

/-- **Limits that close nothing make no difference**: where the expansion down to a depth marks
nothing, the expansion down to a larger depth is the same. -/
theorem expand_of_le : ∀ {depth' : Nat} {chain : List Placement} {address : List Nat}
    {label : Label} {part : Part}, depth ≤ depth' → label.cut = false →
    (expand p c depth chain address label).run = Except.ok part → part.truncated = false →
    (expand p c depth' chain address label).run = Except.ok part := by
  induction depth with
  | zero =>
    intro depth' chain address label part _ hcut h hopen
    cases depth' with
    | zero => exact h
    | succ depth' =>
      obtain ⟨rows, hrows, rfl⟩ := expand_zero_ok h
      -- The item is not marked, so there was nothing to close.
      have hmark : (!rows.isEmpty) = false := (Part.truncated_eq_false_iff.mp hopen).1
      obtain rfl : rows = [] := by simpa using hmark
      have hlabel : { label with cut := false } = label := by rw [← hcut]
      refine (expand_succ_of_slots hrows List.Forall₂.nil).trans ?_
      rw [List.isEmpty_nil, Bool.not_true, hlabel]
  | succ depth ih =>
    intro depth' chain address label part hle _ h hopen
    obtain ⟨depth', rfl⟩ : ∃ n, depth' = n + 1 := ⟨depth' - 1, by omega⟩
    obtain ⟨rows, slots, hrows, rfl, hslots⟩ := expand_succ_ok h
    have hbelow := (Part.truncated_eq_false_iff.mp hopen).2
    refine expand_succ_of_slots hrows ((forall₂_zip hslots).imp ?_)
    rintro ⟨row, i⟩ slot ⟨hzip, allowed, verdicts, hslot⟩
    refine ⟨allowed, verdicts, hslot.read, ?_, hslot.site, hslot.candidates⟩
    refine (forall₂_zip hslot.settled).imp ?_
    rintro ⟨item, j⟩ v ⟨hverdict, hname, hsettled⟩
    refine ⟨hname, hsettled.of_expand fun label part hpart hcut hx => ?_⟩
    refine ih (by omega) hcut hx (hbelow slot (List.of_mem_zip hzip).2 part ?_)
    rw [hslot.candidates]
    exact List.mem_filterMap.mpr ⟨v, (List.of_mem_zip hverdict).2, hpart⟩

/-! ### Marks -/

namespace Part

variable {top part : Part}

/-- What stands in a tree in which nothing is closed is such a tree itself. -/
theorem Stands.truncated (h : top.Stands chain part) (hopen : top.truncated = false) :
    part.truncated = false := by
  induction h with
  | top => exact hopen
  | mount _ hs hd ih => exact (truncated_eq_false_iff.mp ih).2 _ hs _ hd

/-- A tree is truncated if something that stands in it is marked. -/
theorem truncated_iff_stands :
    top.truncated = true ↔ ∃ chain part, top.Stands chain part ∧ part.label.cut = true := by
  rw [← not_iff_not, Bool.not_eq_true]
  constructor
  · rintro hopen ⟨chain, part, hpart, hcut⟩
    have hnot := (truncated_eq_false_iff.mp (hpart.truncated hopen)).1
    rw [hcut] at hnot
    exact Bool.noConfusion hnot
  · intro hnone
    refine truncated_eq_false_of_stands fun chain part hpart => ?_
    exact Bool.eq_false_iff.mpr fun hcut => hnone ⟨chain, part, hpart, hcut⟩

end Part

/-- **A mark says that slots were closed**: the depth is used up, and the item has slots. -/
theorem ExpandedAt.cut_iff {part : Part} (h : ExpandedAt p c depth chain part) :
    part.label.cut = true ↔ depth = 0 ∧ ∃ rows, p.slots part.id = .ok rows ∧ rows ≠ [] := by
  cases depth with
  | succ depth =>
    rw [h.cut_eq_false]
    exact ⟨fun hcut => Bool.noConfusion hcut, fun hdepth => absurd hdepth.1 (Nat.succ_ne_zero _)⟩
  | zero =>
    obtain ⟨address, label, -, h⟩ := h
    obtain ⟨rows, hrows, rfl⟩ := expand_zero_ok h
    constructor
    · intro hcut
      have hmark : (!rows.isEmpty) = true := hcut
      refine ⟨rfl, rows, hrows, ?_⟩
      rintro rfl
      exact Bool.noConfusion hmark
    · rintro ⟨-, rows', hrows', hne⟩
      obtain rfl : rows = rows' := Except.ok.inj (hrows.symm.trans hrows')
      show (!rows.isEmpty) = true
      simpa using hne

/-! ### Built trees -/

namespace CandidateTree

variable {maxDepth : Nat} {weaponId : String} {part : Part}

/-- An expansion is truncated exactly if some item at the depth limit has slots. -/
theorem truncated_iff (h : (expansion p maxDepth weaponId c).run = Except.ok part) :
    part.truncated = true ↔ ∃ chain x, part.Stands chain x ∧ chain.length = maxDepth ∧
      ∃ rows, p.slots x.id = .ok rows ∧ rows ≠ [] := by
  rw [Part.truncated_iff_stands]
  refine exists_congr fun chain => exists_congr fun x => and_congr_right fun hx => ?_
  obtain ⟨rest, hlength, hexp, -⟩ := expandedAt_of_stands h hx
  rw [hexp.cut_iff]
  refine and_congr_left fun _ => ?_
  omega

/-- An expansion that is not truncated is the expansion down to any larger depth. -/
theorem expansion_of_le (hle : maxDepth ≤ depth)
    (h : (expansion p maxDepth weaponId c).run = Except.ok part) (hopen : part.truncated = false) :
    (expansion p depth weaponId c).run = Except.ok part := by
  obtain ⟨w, hvalid, hw, hexpand⟩ := expansion_ok h
  unfold expansion
  rw [hvalid]
  exact (Reading.run_bind_of_ok (Reading.ask_of_ok hw)).trans (expand_of_le hle rfl hexpand hopen)

end CandidateTree

end Gunsmith
