/-
  What calls on the store do to the rows of a table.

  Rows are written in two ways.  `upsertRow` changes the first row with a key or adds one,
  `updateRows` changes all rows that satisfy a condition.  Both leave the other rows as they
  are, and in order; what a later look-up by the key finds is what was written.  As long as
  the changes keep the keys, keys without repetition stay without repetition.
-/
import Gunsmith.Store.Tables
import Mathlib.Data.List.Nodup
import Mathlib.Tactic.SplitIfs

namespace Gunsmith

section Rows

variable {α κ : Type} {hasKey : α → Bool} {change : α → α} {fresh : α} {rows : List α}

/-! ### Changing or adding a row -/

/-- After the row with a key was written, it is found by its key. -/
theorem find?_upsertRow (hchange : ∀ row, hasKey row = true → hasKey (change row) = true)
    (hfresh : hasKey fresh = true) :
    (upsertRow hasKey change fresh rows).find? hasKey =
      some (((rows.find? hasKey).map change).getD fresh) := by
  induction rows with
  | nil => simp [upsertRow, hfresh]
  | cons row rows ih =>
    rw [upsertRow]
    by_cases h : hasKey row = true
    · simp [h, hchange row h]
    · simp only [h, List.find?_cons, Bool.false_eq_true, if_false]
      exact ih

/-- The rows without the key stay as they are. -/
theorem filter_upsertRow (hchange : ∀ row, hasKey row = true → hasKey (change row) = true)
    (hfresh : hasKey fresh = true) :
    (upsertRow hasKey change fresh rows).filter (fun row => !hasKey row) =
      rows.filter fun row => !hasKey row := by
  induction rows with
  | nil => simp [upsertRow, hfresh]
  | cons row rows ih =>
    rw [upsertRow]
    by_cases h : hasKey row = true
    · simp [h, hchange row h]
    · simp [h, ih]

/-- Of the rows with the key the first is changed; if there are none, the new row is one. -/
theorem filter_hasKey_upsertRow (hchange : ∀ row, hasKey row = true → hasKey (change row) = true)
    (hfresh : hasKey fresh = true) :
    (upsertRow hasKey change fresh rows).filter hasKey =
      ((rows.filter hasKey).head?.map change).getD fresh :: (rows.filter hasKey).tail := by
  induction rows with
  | nil => simp [upsertRow, hfresh]
  | cons row rows ih =>
    rw [upsertRow]
    by_cases h : hasKey row = true
    · simp [h, hchange row h]
    · simp [h, ih]

/-- A condition that no row with the key satisfies picks the same rows as before the row was
written. -/
theorem filter_upsertRow_of_disjoint {sought : α → Bool}
    (hchange : ∀ row, hasKey row = true → hasKey (change row) = true)
    (hfresh : hasKey fresh = true) (hsought : ∀ row, hasKey row = true → sought row = false) :
    (upsertRow hasKey change fresh rows).filter sought = rows.filter sought := by
  have hkept : ∀ row, (sought row && !hasKey row) = sought row := by
    intro row
    cases hkey : hasKey row with
    | true => rw [hsought row hkey, Bool.false_and]
    | false => rw [Bool.not_false, Bool.and_true]
  have hfilter := congrArg (List.filter sought) (@filter_upsertRow _ _ _ _ rows hchange hfresh)
  simpa only [List.filter_filter, hkept] using hfilter

/-- What is looked for by something that only rows which are kept satisfy is found among these. -/
theorem find?_filter_of_imp {kept sought : α → Bool}
    (h : ∀ row, sought row = true → kept row = true) :
    (rows.filter kept).find? sought = rows.find? sought := by
  rw [List.find?_filter]
  congr 1
  funext row
  cases hrow : sought row with
  | true => simp [h row hrow]
  | false => simp

/-- What is looked for by something that no row with the key satisfies is found as before the row was
written. -/
theorem find?_upsertRow_of_disjoint {sought : α → Bool}
    (hchange : ∀ row, hasKey row = true → hasKey (change row) = true)
    (hfresh : hasKey fresh = true) (hsought : ∀ row, hasKey row = true → sought row = false) :
    (upsertRow hasKey change fresh rows).find? sought = rows.find? sought := by
  have hkept : ∀ row, sought row = true → (!hasKey row) = true := by
    intro row hrow
    cases hkey : hasKey row with
    | true => exact absurd (hsought row hkey) (by simp [hrow])
    | false => rfl
  rw [← find?_filter_of_imp hkept, filter_upsertRow hchange hfresh, find?_filter_of_imp hkept]

/-- Every row is an old one, the change of an old one that has the key, or the new one. -/
theorem mem_upsertRow {row : α} (h : row ∈ upsertRow hasKey change fresh rows) :
    row ∈ rows ∨ (∃ old ∈ rows, hasKey old = true ∧ row = change old) ∨ row = fresh := by
  induction rows with
  | nil => exact .inr (.inr (List.mem_singleton.mp h))
  | cons first rows ih =>
    rw [upsertRow] at h
    by_cases hfirst : hasKey first = true
    · rw [if_pos hfirst] at h
      rcases List.mem_cons.mp h with rfl | h
      · exact .inr (.inl ⟨first, List.mem_cons_self, hfirst, rfl⟩)
      · exact .inl (List.mem_cons_of_mem first h)
    · rw [if_neg hfirst] at h
      rcases List.mem_cons.mp h with rfl | h
      · exact .inl List.mem_cons_self
      · rcases ih h with h | ⟨old, hold, h⟩ | h
        · exact .inl (List.mem_cons_of_mem first h)
        · exact .inr (.inl ⟨old, List.mem_cons_of_mem first hold, h⟩)
        · exact .inr (.inr h)

/-- A column that the change keeps stays as it is, with the value of the new row at the end if a row
is added. -/
theorem map_upsertRow {column : α → κ}
    (hchange : ∀ row, hasKey row = true → column (change row) = column row) :
    (upsertRow hasKey change fresh rows).map column =
      if (rows.find? hasKey).isSome then rows.map column else rows.map column ++ [column fresh] := by
  induction rows with
  | nil => rfl
  | cons row rows ih =>
    rw [upsertRow]
    by_cases h : hasKey row = true
    · simp [h, hchange row h]
    · simp only [h, List.find?_cons, Bool.false_eq_true, if_false, List.map_cons, ih]
      split <;> rfl

/-- A column without repetitions stays one, if the value of the new row is not there yet. -/
theorem nodup_map_upsertRow {column : α → κ}
    (hchange : ∀ row, hasKey row = true → column (change row) = column row)
    (hfresh : rows.find? hasKey = none → column fresh ∉ rows.map column)
    (h : (rows.map column).Nodup) : ((upsertRow hasKey change fresh rows).map column).Nodup := by
  rw [map_upsertRow hchange]
  cases hfind : rows.find? hasKey with
  | some row => exact h
  | none =>
    refine List.nodup_append.mpr ⟨h, List.nodup_singleton _, ?_⟩
    rintro a ha b hb rfl
    exact hfresh hfind (List.mem_singleton.mp hb ▸ ha)

/-! ### Changing rows -/

/-- What is looked for by something that the change keeps is found changed, if it was to be
changed. -/
theorem find?_updateRows {applies sought : α → Bool}
    (hchange : ∀ row, sought (change row) = sought row) :
    (updateRows applies change rows).1.find? sought =
      (rows.find? sought).map fun row => if applies row then change row else row := by
  have hsame : (sought ∘ fun row => if applies row then change row else row) = sought := by
    funext row
    show sought (if applies row then change row else row) = sought row
    split
    · exact hchange row
    · rfl
  rw [updateRows, List.find?_map, hsame]

/-- The rows that no change applies to stay as they are. -/
theorem filter_updateRows {applies kept : α → Bool}
    (hkept : ∀ row ∈ rows, kept row = true → applies row = false)
    (hchange : ∀ row, kept (change row) = kept row) :
    (updateRows applies change rows).1.filter kept = rows.filter kept := by
  show (rows.map fun row => if applies row then change row else row).filter kept = _
  induction rows with
  | nil => rfl
  | cons row rows ih =>
    have ih := ih fun row hrow => hkept row (List.mem_cons_of_mem _ hrow)
    by_cases hrow : kept row = true
    · simp [hrow, hkept row List.mem_cons_self hrow, ih]
    · by_cases happlies : applies row = true
      · simp [hrow, happlies, hchange, ih]
      · simp [hrow, happlies, ih]

/-- A column that the change keeps stays as it is. -/
theorem map_updateRows {applies : α → Bool} {column : α → κ}
    (hchange : ∀ row, column (change row) = column row) :
    (updateRows applies change rows).1.map column = rows.map column := by
  rw [updateRows, List.map_map]
  refine List.map_congr_left fun row _ => ?_
  show column (if applies row then change row else row) = column row
  split
  · exact hchange row
  · rfl

/-- Every row is an old one or the change of one. -/
theorem mem_updateRows {applies : α → Bool} {row : α}
    (h : row ∈ (updateRows applies change rows).1) :
    row ∈ rows ∨ ∃ old ∈ rows, applies old = true ∧ row = change old := by
  obtain ⟨old, hold, rfl⟩ := List.mem_map.mp h
  by_cases happlies : applies old = true
  · exact .inr ⟨old, hold, happlies, if_pos happlies⟩
  · exact .inl (by rwa [if_neg happlies])

/-- If the condition applies to one row only, then that row is replaced. -/
theorem updateRows_eq_set {applies : α → Bool} {i : Nat} {row : α} (hrow : rows[i]? = some row)
    (happlies : applies row = true)
    (hothers : ∀ j other, rows[j]? = some other → applies other = true → j = i) :
    (updateRows applies change rows).1 = rows.set i (change row) := by
  refine List.ext_getElem? fun j => ?_
  rw [updateRows, List.getElem?_map, List.getElem?_set]
  split_ifs with hij hi
  · subst hij
    rw [hrow, Option.map_some, if_pos happlies]
  · exact absurd (List.getElem?_eq_some_iff.mp hrow).1 hi
  · cases hother : rows[j]? with
    | none => rfl
    | some other =>
      rw [Option.map_some, if_neg]
      exact fun h => hij (hothers j other hother h).symm

/-- No rows are changed if the condition applies to none of them. -/
theorem updateRows_count_eq_zero {applies : α → Bool} (h : ∀ row ∈ rows, applies row = false) :
    (updateRows applies change rows).2 = 0 := by
  rw [updateRows, List.length_eq_zero_iff, List.filter_eq_nil_iff]
  exact fun row hrow => Bool.eq_false_iff.mp (h row hrow)

/-- If no rows are changed then the rows stay as they are. -/
theorem updateRows_eq_self {applies : α → Bool} (h : (updateRows applies change rows).2 = 0) :
    (updateRows applies change rows).1 = rows := by
  rw [updateRows, List.length_eq_zero_iff, List.filter_eq_nil_iff] at h
  exact (List.map_congr_left fun row hrow => if_neg (h row hrow)).trans (List.map_id rows)

/-- Rows are changed if the condition applies to one of them. -/
theorem updateRows_count_ne_zero {applies : α → Bool} {row : α} (hrow : row ∈ rows)
    (h : applies row = true) : (updateRows applies change rows).2 ≠ 0 := by
  intro hzero
  exact List.ne_nil_of_mem (List.mem_filter.mpr ⟨hrow, h⟩) (List.length_eq_zero_iff.mp hzero)

end Rows

/-! ### Calls -/

/-- The rows of a table that is there. -/
theorem Store.rows_eq {s : Store} {t : Table} {rows : List t.Row} (h : s.rows? t = some rows) :
    s.rows t = .ok rows := by
  rw [Store.rows, h]

/-- A table that is read is there. -/
theorem Store.rows_ok {s : Store} {t : Table} {rows : List t.Row} (h : s.rows t = .ok rows) :
    s.rows? t = some rows := by
  rw [Store.rows] at h
  split at h
  · next hrows => rw [hrows, Except.ok.inj h]
  · exact absurd h nofun

namespace Transaction

variable {α β : Type}

/-- A call that succeeds. -/
theorem call_ok {action : Transaction α} {s s' : Store} {a : α} (h : action s = .ok (a, s')) :
    action.call s = (.ok a, s') := by
  rw [call, h]

/-- A call that fails. -/
theorem call_error {action : Transaction α} {s : Store} {e : StoreError} (h : action s = .error e) :
    action.call s = (.error e, s) := by
  rw [call, h]

theorem rows_eq {t : Table} {s : Store} {rows : List t.Row} (h : s.rows? t = some rows) :
    Transaction.rows t s = .ok (rows, s) := by
  show (s.rows t >>= fun rows => pure (rows, s) : Except StoreError _) = _
  rw [Store.rows_eq h]
  rfl

/-- A call that begins with reading a table that is there. -/
theorem rows_bind {t : Table} {s : Store} {rows : List t.Row} (h : s.rows? t = some rows)
    (next : List t.Row → Transaction α) : (Transaction.rows t >>= next) s = next rows s := by
  show StateT.bind (Transaction.rows t) next s = _
  rw [StateT.bind, rows_eq h]
  rfl

/-- What holds of a store, and of every store that a call leads to, holds after the call. -/
theorem call_keeps {action : Transaction α} {s : Store} {P : Store → Prop} (h : P s)
    (hok : ∀ a s', action s = .ok (a, s') → P s') : P (action.call s).2 := by
  rw [call]
  cases hrun : action s with
  | ok r => exact hok r.1 r.2 hrun
  | error e => exact h

/-- A call in two parts that succeeds succeeds in both. -/
theorem bind_ok {action : Transaction α} {next : α → Transaction β} {s s' : Store} {b : β}
    (h : (action >>= next) s = .ok (b, s')) :
    ∃ a s₁, action s = .ok (a, s₁) ∧ next a s₁ = .ok (b, s') := by
  have hbind : StateT.bind action next s = .ok (b, s') := h
  rw [StateT.bind] at hbind
  cases hrun : action s with
  | error e =>
    rw [hrun] at hbind
    exact absurd hbind nofun
  | ok r =>
    rw [hrun] at hbind
    exact ⟨r.1, r.2, rfl, hbind⟩

theorem rows_ok {t : Table} {rows : List t.Row} {s s' : Store}
    (h : Transaction.rows t s = .ok (rows, s')) : s.rows? t = some rows ∧ s' = s := by
  have hread : (s.rows t >>= fun rows => pure (rows, s) : Except StoreError _) = .ok (rows, s') := h
  cases hrows : s.rows t with
  | error e =>
    rw [hrows] at hread
    exact absurd hread nofun
  | ok rows' =>
    rw [hrows] at hread
    obtain ⟨rfl, rfl⟩ := Prod.mk.inj (Except.ok.inj hread)
    exact ⟨Store.rows_ok hrows, rfl⟩

/-- A call writes no other table than the given one. -/
def OnlyWrites (t : Table) (action : Transaction α) : Prop :=
  ∀ s a s', action s = .ok (a, s') → ∀ u, u ≠ t → s'.rows? u = s.rows? u

namespace OnlyWrites

variable {t : Table}

/-- The other tables are as before, whether the call succeeds or fails. -/
theorem call {action : Transaction α} (h : OnlyWrites t action) (s : Store) {u : Table}
    (hu : u ≠ t) : (action.call s).2.rows? u = s.rows? u :=
  call_keeps (P := fun s' => s'.rows? u = s.rows? u) rfl fun a s' hok => h s a s' hok u hu

theorem pure (a : α) : OnlyWrites t (Pure.pure a : Transaction α) := by
  intro s b s' h u _
  obtain ⟨-, rfl⟩ := Prod.mk.inj (Except.ok.inj h)
  rfl

theorem throw (e : StoreError) : OnlyWrites t (MonadExcept.throw e : Transaction α) := by
  intro s a s' h
  exact absurd h nofun

theorem get : OnlyWrites t (MonadState.get : Transaction Store) := by
  intro s b s' h u _
  obtain ⟨-, rfl⟩ := Prod.mk.inj (Except.ok.inj h)
  rfl

theorem lift (result : Except StoreError α) : OnlyWrites t (liftM result : Transaction α) := by
  intro s a s' h u _
  cases result with
  | error e => exact absurd h nofun
  | ok b =>
    obtain ⟨-, rfl⟩ := Prod.mk.inj (Except.ok.inj h)
    rfl

theorem write (rows : List t.Row) : OnlyWrites t (Transaction.write t rows) := by
  intro s b s' h u hu
  obtain ⟨-, rfl⟩ := Prod.mk.inj (Except.ok.inj h)
  exact s.rows?_put_of_ne (Ne.symm hu) (some rows)

theorem bind {action : Transaction α} {next : α → Transaction β} (haction : OnlyWrites t action)
    (hnext : ∀ a, OnlyWrites t (next a)) : OnlyWrites t (action >>= next) := by
  intro s b s' h u hu
  obtain ⟨a, s₁, hrun, h⟩ := bind_ok h
  exact (hnext a s₁ b s' h u hu).trans (haction s a s₁ hrun u hu)

theorem rows (u : Table) : OnlyWrites t (Transaction.rows u) := by
  intro s b s' h v _
  obtain ⟨-, rfl⟩ := rows_ok h
  rfl

end OnlyWrites

end Transaction

end Gunsmith
