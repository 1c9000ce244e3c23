/-
  Isolated solutions, written and read back.

  A row of isolated solutions is found under its item, its stat, its levels and its version,
  and what was written last under these is what is read (`Transaction.isolated?_setIsolated`):
  the selections are kept as a text, and the text decodes to them.  Under any other key the
  answer is what it was.  After all rows were forgotten nothing is found
  (`Transaction.isolated?_clearIsolated`).
-/
import Gunsmith.Proofs.Store.Records
import Gunsmith.Store.Isolated

namespace Gunsmith

/-- The text of some selections is read. -/
theorem Selection.json_listToJson (index : Nat) (selections : List Selection) :
    Column.json index (Json.listOf? Selection.ofJson?) (Selection.listToJson selections).print =
      .ok selections :=
  Column.json_print index (Json.listOf?_list Selection.ofJson?_toJson selections)

namespace Transaction

variable {s : Store} {rows : List IsolatedRow}

/-- What is read, given the rows. -/
theorem isolated?_eq (h : s.isolated = some rows) (id : String) (stat : Stat)
    (levels : TraderLevels) (version : String) :
    s.isolated? id stat levels version =
      match rows.find? fun row => row.Matches id stat levels version with
      | none => .ok none
      | some row =>
        (Column.json 2 (Json.listOf? Selection.ofJson?) row.selections).map fun selections =>
          some ⟨id, stat, row.sums, selections⟩ := by
  have hrows : s.rows .isolated = .ok rows := Store.rows_eq h
  rw [Store.isolated?, hrows]
  show (match rows.find? fun row => row.Matches id stat levels version with
    | none => Except.ok none
    | some row => _) = _
  cases rows.find? fun row => row.Matches id stat levels version <;> rfl

/-- Keeping an isolated solution writes the isolated solutions only. -/
theorem onlyWrites_setIsolated (levels : TraderLevels) (version : String) (entry : CacheEntry) :
    OnlyWrites .isolated (setIsolated levels version entry) :=
  .bind (.rows _) fun _ => .write _

/-- Keeping an isolated solution succeeds, and **what is read** from then on is that solution under
its key, and what it was under other keys. -/
theorem isolated?_setIsolated (h : s.isolated = some rows) (levels : TraderLevels)
    (version : String) (e : CacheEntry) :
    ∃ s' rows', (setIsolated levels version e).call s = (.ok (), s') ∧
      s'.isolated = some rows' ∧
      ∀ id stat levels' version', s'.isolated? id stat levels' version' =
        if e.itemId = id ∧ e.stat = stat ∧ levels.key = levels'.key ∧ version = version' then
          .ok (some e)
        else s.isolated? id stat levels' version' := by
  have hrows : s.rows? .isolated = some rows := h
  let fresh : IsolatedRow :=
    ⟨e.itemId, e.stat, levels.key, version, e.sums, (Selection.listToJson e.selections).print⟩
  let change : IsolatedRow → IsolatedRow := fun row =>
    { row with sums := e.sums, selections := (Selection.listToJson e.selections).print }
  let hasKey : IsolatedRow → Bool := fun row => row.Matches e.itemId e.stat levels version
  have hchange : ∀ row, hasKey row = true → hasKey (change row) = true := fun _ hrow => hrow
  have hfresh : hasKey fresh = true := decide_eq_true ⟨rfl, rfl, rfl, rfl⟩
  have hcall : (setIsolated levels version e).call s =
      (.ok (), s.put .isolated (some (upsertRow hasKey change fresh rows))) := by
    refine call_ok ?_
    rw [setIsolated, rows_bind hrows]
    rfl
  refine ⟨_, _, hcall, rfl, fun id stat levels' version' => ?_⟩
  rw [isolated?_eq rfl, isolated?_eq h]
  split_ifs with hkey
  · obtain ⟨rfl, rfl, hlevels, rfl⟩ := hkey
    have hsame : (fun row : IsolatedRow =>
        decide (row.Matches e.itemId e.stat levels' version)) = hasKey := by
      funext row
      refine decide_eq_decide.mpr ?_
      unfold IsolatedRow.Matches
      rw [hlevels]
    rw [hsame, find?_upsertRow hchange hfresh]
    -- Whether the row was there or not, it holds the text that was written.
    have hsums : ((rows.find? hasKey).map change |>.getD fresh).sums = e.sums := by
      cases rows.find? hasKey <;> rfl
    have htext : ((rows.find? hasKey).map change |>.getD fresh).selections =
        (Selection.listToJson e.selections).print := by
      cases rows.find? hasKey <;> rfl
    dsimp only
    rw [hsums, htext, Selection.json_listToJson]
    rfl
  · have hdisjoint : ∀ row, hasKey row = true →
        decide (row.Matches id stat levels' version') = false := by
      intro row hrow
      obtain ⟨hid, hstat, hlevels, hversion⟩ := of_decide_eq_true hrow
      refine decide_eq_false fun ⟨hid', hstat', hlevels', hversion'⟩ => hkey ?_
      exact ⟨hid.symm.trans hid', hstat.symm.trans hstat', hlevels.symm.trans hlevels',
        hversion.symm.trans hversion'⟩
    rw [find?_upsertRow_of_disjoint hchange hfresh hdisjoint]

/-- Forgetting all isolated solutions succeeds, and nothing is read from then on. -/
theorem isolated?_clearIsolated (h : s.isolated = some rows) :
    ∃ s', clearIsolated.call s = (.ok (), s') ∧ s'.isolated = some [] ∧
      ∀ id stat levels version, s'.isolated? id stat levels version = .ok none := by
  have hrows : s.rows? .isolated = some rows := h
  have hcall : clearIsolated.call s = (.ok (), s.put .isolated (some [])) := by
    refine call_ok ?_
    rw [clearIsolated, rows_bind hrows]
    rfl
  refine ⟨_, hcall, rfl, fun id stat levels version => ?_⟩
  exact @isolated?_eq (s.put .isolated (some [])) [] rfl id stat levels version

end Transaction

end Gunsmith
