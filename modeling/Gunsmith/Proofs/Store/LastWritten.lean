/-
  Tables of what was last written.

  A table whose rows have a key holds for each key the row that was last written under it, if one
  was (`LastWritten`).  Writing a row keeps it so, whether the row with the key is changed in its
  place (`LastWritten.upsertRow`) or removed and added again (`LastWritten.replace`), and so does
  removing all rows with certain keys (`LastWritten.filter`).

  Some of the rows, sorted by what tells them apart, are strictly sorted (`LastWritten.listed`), and
  there is only one such list (`eq_of_pairwise_lt`).
-/
import Gunsmith.Proofs.Store.Tables
import Mathlib.Data.List.Sort

namespace Gunsmith

/-- The rows are those that were last written, each under its key. -/
structure LastWritten {α κ : Type} (key : α → κ) (last? : κ → Option α) (rows : List α) : Prop where
  nodup : (rows.map key).Nodup
  keyed : ∀ k row, last? k = some row → key row = k
  mem_iff : ∀ row, row ∈ rows ↔ last? (key row) = some row

/-! ### Sorting -/

/-- Rows no two of which have the same rank are strictly sorted by it. -/
theorem pairwise_lt_mergeSort {α κ : Type} [LinearOrder κ] (rank : α → κ) {le : α → α → Bool}
    (hle : ∀ a b, le a b = decide (rank a ≤ rank b)) {rows : List α} (h : (rows.map rank).Nodup) :
    (rows.mergeSort le).Pairwise fun a b => rank a < rank b := by
  have htrans : ∀ a b c, le a b = true → le b c = true → le a c = true := by
    intro a b c hab hbc
    rw [hle, decide_eq_true_eq] at *
    exact hab.trans hbc
  have htotal : ∀ a b, (le a b || le b a) = true := by
    intro a b
    rw [Bool.or_eq_true, hle, hle, decide_eq_true_eq, decide_eq_true_eq]
    exact le_total _ _
  have hsorted := List.pairwise_mergeSort htrans htotal rows
  have hne : (rows.mergeSort le).Pairwise fun a b => rank a ≠ rank b :=
    List.pairwise_map.mp (((List.mergeSort_perm rows le).map rank).nodup_iff.mpr h)
  refine hsorted.imp₂ (fun a b hab hne => ?_) hne
  rw [hle, decide_eq_true_eq] at hab
  exact lt_of_le_of_ne hab hne

/-- There is one strictly sorted list of given elements. -/
theorem eq_of_pairwise_lt {α κ : Type} [LinearOrder κ] {rank : α → κ} {xs ys : List α}
    (hxs : xs.Pairwise fun a b => rank a < rank b) (hys : ys.Pairwise fun a b => rank a < rank b)
    (hmem : ∀ a, a ∈ xs ↔ a ∈ ys) : xs = ys := by
  have : Std.Irrefl fun a b => rank a < rank b := ⟨fun a => lt_irrefl (rank a)⟩
  have : Std.Antisymm fun a b => rank a < rank b := ⟨fun a b hab hba => absurd hab hba.asymm⟩
  exact hxs.eq_of_mem_iff hys hmem

namespace LastWritten

variable {α κ : Type} {key : α → κ} {last? last?' : κ → Option α} {rows : List α}

theorem nil (key : α → κ) : LastWritten key (fun _ => none) [] where
  nodup := List.nodup_nil
  keyed _ _ h := absurd h nofun
  mem_iff _ := ⟨nofun, nofun⟩

theorem congr (h : LastWritten key last? rows) (hlast : ∀ k, last?' k = last? k) :
    LastWritten key last?' rows :=
  (funext hlast : last?' = last?) ▸ h

/-- There is a row with a key exactly if one was written. -/
theorem exists_iff (h : LastWritten key last? rows) {k : κ} :
    (∃ row ∈ rows, key row = k) ↔ (last? k).isSome := by
  constructor
  · rintro ⟨row, hrow, rfl⟩
    rw [(h.mem_iff row).mp hrow]
    rfl
  · intro hsome
    obtain ⟨row, hrow⟩ := Option.isSome_iff_exists.mp hsome
    have hkey := h.keyed k row hrow
    exact ⟨row, (h.mem_iff row).mpr (hkey.symm ▸ hrow), hkey⟩

/-- Rows with certain keys stay. -/
theorem filter (h : LastWritten key last? rows) {kept : α → Bool} {keep : κ → Prop}
    [DecidablePred keep] (hkept : ∀ row, kept row = decide (keep (key row))) :
    LastWritten key (fun k => if keep k then last? k else none) (rows.filter kept) where
  nodup := h.nodup.sublist (List.filter_sublist.map key)
  keyed k row hrow := by
    split_ifs at hrow
    exact h.keyed k row hrow
  mem_iff row := by
    rw [List.mem_filter, hkept, decide_eq_true_eq, h.mem_iff]
    by_cases hkeep : keep (key row)
    · rw [if_pos hkeep, and_iff_left hkeep]
    · rw [if_neg hkeep]
      exact ⟨fun hrow => absurd hrow.2 hkeep, nofun⟩

section

variable [DecidableEq κ]

/-- What is looked up by its key is what was last written under it. -/
theorem find?_eq (h : LastWritten key last? rows) (k : κ) :
    rows.find? (fun row => key row = k) = last? k := by
  cases hfind : rows.find? fun row => decide (key row = k) with
  | some row =>
    have hsought := List.find?_some hfind
    rw [← of_decide_eq_true hsought]
    exact ((h.mem_iff row).mp (List.mem_of_find?_eq_some hfind)).symm
  | none =>
    cases hlast : last? k with
    | none => rfl
    | some row =>
      obtain ⟨row', hrow', hkey⟩ := h.exists_iff.mpr (hlast ▸ rfl : (last? k).isSome)
      exact absurd (decide_eq_true hkey) (List.find?_eq_none.mp hfind row' hrow')

/-- A row is written in the place of the one with its key, or at the end. -/
theorem upsertRow (h : LastWritten key last? rows) {new : α} {hasKey : α → Bool} {change : α → α}
    (hkey : ∀ row, hasKey row = decide (key row = key new))
    (hchange : ∀ row, hasKey row = true → change row = new) :
    LastWritten key (fun k => if k = key new then some new else last? k)
      (Gunsmith.upsertRow hasKey change new rows) := by
  have hnew : hasKey new = true := by rw [hkey, decide_eq_true_eq]
  have hstays : ∀ row, hasKey row = true → hasKey (change row) = true := fun row hrow => by
    rw [hchange row hrow, hnew]
  have hnodup : ((Gunsmith.upsertRow hasKey change new rows).map key).Nodup := by
    refine nodup_map_upsertRow (fun row hrow => ?_) (fun hnone hmem => ?_) h.nodup
    · rw [hchange row hrow]
      rw [hkey, decide_eq_true_eq] at hrow
      exact hrow.symm
    · obtain ⟨row, hrow, hsame⟩ := List.mem_map.mp hmem
      refine List.find?_eq_none.mp hnone row hrow ?_
      rw [hkey, hsame, decide_eq_true rfl]
  have hmem : new ∈ Gunsmith.upsertRow hasKey change new rows := by
    have hfound := @find?_upsertRow _ _ _ _ rows hstays hnew
    have hrow : ((rows.find? hasKey).map change).getD new = new := by
      cases hfind : rows.find? hasKey with
      | none => rfl
      | some row => exact hchange row (List.find?_some hfind)
    rw [hrow] at hfound
    exact List.mem_of_find?_eq_some hfound
  have hothers : ∀ row, key row ≠ key new →
      (row ∈ Gunsmith.upsertRow hasKey change new rows ↔ row ∈ rows) := by
    intro row hne
    have hnot : (!hasKey row) = true := by rw [hkey, decide_eq_false hne, Bool.not_false]
    have hfilter := @filter_upsertRow _ _ _ _ rows hstays hnew
    have hiff := congrArg (row ∈ ·) hfilter
    simpa only [List.mem_filter, hnot, and_true, eq_iff_iff] using hiff
  refine ⟨hnodup, fun k row hrow => ?_, fun row => ?_⟩
  · split_ifs at hrow with hk
    · rw [hk, Option.some.inj hrow]
    · exact h.keyed k row hrow
  · by_cases hrow : key row = key new
    · rw [if_pos hrow, Option.some.injEq]
      refine ⟨fun hwritten => ?_, fun hsame => hsame ▸ hmem⟩
      exact List.inj_on_of_nodup_map hnodup hmem hwritten hrow.symm
    · rw [if_neg hrow, hothers row hrow, h.mem_iff]

/-- The row with the key is removed, and the row is added at the end. -/
theorem replace (h : LastWritten key last? rows) {new : α} {kept : α → Bool}
    (hkept : ∀ row, kept row = decide (key row ≠ key new)) :
    LastWritten key (fun k => if k = key new then some new else last? k)
      (rows.filter kept ++ [new]) := by
  have hfilter : LastWritten key (fun k => if k ≠ key new then last? k else none)
      (rows.filter kept) := h.filter hkept
  have hnot : key new ∉ (rows.filter kept).map key := by
    intro hmem
    obtain ⟨row, hrow, hsame⟩ := List.mem_map.mp hmem
    have hkeep := (List.mem_filter.mp hrow).2
    rw [hkept, decide_eq_true_eq] at hkeep
    exact hkeep hsame
  refine ⟨?_, fun k row hrow => ?_, fun row => ?_⟩
  · rw [List.map_append]
    exact List.nodup_append_comm.mp (List.nodup_cons.mpr ⟨hnot, hfilter.nodup⟩)
  · split_ifs at hrow with hk
    · rw [hk, Option.some.inj hrow]
    · exact h.keyed k row hrow
  · rw [List.mem_append, List.mem_singleton, hfilter.mem_iff]
    by_cases hrow : key row = key new
    · rw [if_pos hrow, if_neg (not_not.mpr hrow), Option.some.injEq]
      exact ⟨fun hor => (hor.resolve_left nofun).symm, fun hsame => Or.inr hsame.symm⟩
    · rw [if_neg hrow, if_pos hrow]
      exact ⟨fun hor => hor.resolve_right fun hsame => hrow (hsame ▸ rfl), Or.inl⟩

end

/-- **Some of the rows, in order**, are strictly sorted if no two of them have the same rank. -/
theorem listed {ρ : Type} [LinearOrder ρ] (h : LastWritten key last? rows) (own : α → Bool)
    (rank : α → ρ) {le : α → α → Bool} (hle : ∀ a b, le a b = decide (rank a ≤ rank b))
    (hrank : ∀ a b, own a = true → own b = true → rank a = rank b → key a = key b) :
    ((rows.filter own).mergeSort le).Pairwise (fun a b => rank a < rank b) ∧
      ∀ row, row ∈ (rows.filter own).mergeSort le ↔
        own row = true ∧ last? (key row) = some row := by
  refine ⟨pairwise_lt_mergeSort rank hle ?_, fun row => ?_⟩
  · have hkeys : ((rows.filter own).map key).Nodup := h.nodup.sublist (List.filter_sublist.map key)
    refine hkeys.of_map.map_on fun a ha b hb hsame => ?_
    have hown := fun row (hrow : row ∈ rows.filter own) => (List.mem_filter.mp hrow).2
    exact List.inj_on_of_nodup_map hkeys ha hb (hrank a b (hown a ha) (hown b hb) hsame)
  · rw [List.mem_mergeSort, List.mem_filter, and_comm, h.mem_iff]

end LastWritten

end Gunsmith
