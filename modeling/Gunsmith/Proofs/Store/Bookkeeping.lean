/-
  The books of stored builds.

  Whatever calls are made on an empty table of builds, in whatever order and with whatever
  arguments, there is one row for each key that was written, and it keeps its id
  (`BuildCall.prefix_map_after`).  What the row says is what the last call that touched its key left
  there (`BuildCall.lastTouch?`): a call touches the key that it is given, or, if it is given an id,
  the key of the row with that id.

  `BuildCall.Tells` is the invariant, which every call preserves (`BuildCall.Tells.step`): keys and
  ids are without repetition, every row can be read, and it tells the last touch of its key.
  `BuildCall.Bookkeeping` collects what holds after a run, and `BuildCall.bookkeeping` proves it.
-/
import Gunsmith.Proofs.Store.Calls
import Mathlib.Data.Set.Function

namespace Gunsmith

/-- The stored builds, row by row. -/
def Store.buildRows (s : Store) : List BuildRow := s.builds.getD []

theorem Store.buildRows_eq {s : Store} {rows : List BuildRow} (h : s.builds = some rows) :
    s.buildRows = rows := by
  rw [buildRows, h, Option.getD_some]

/-- A call that writes the stored builds, with all that it is given. -/
inductive BuildCall where
  | begin (m : Moment) (itemId : String) (stat : Stat) (c : Constraints) (version : String)
  | complete (m : Moment) (c : Constraints) (version : String) (result : BuildResult)
  | fail (m : Moment) (id error : String)

namespace BuildCall

/-! ### Calls -/

/-- The key that a call is given. -/
def key? : BuildCall → Option BuildKey
  | .begin _ itemId stat c version => some (.of itemId stat c version)
  | .complete _ c version r => some (.of r.itemId r.stat c version)
  | .fail .. => none

/-- The id that a call brings along, in case it needs a new row. -/
def fresh? : BuildCall → Option String
  | .begin m .. => some m.fresh
  | .complete m .. => some m.fresh
  | .fail .. => none

/-- What the call is given has a place in its columns: levels are bytes, and sums fit 64 bits. -/
def Fits : BuildCall → Prop
  | .begin _ _ _ c _ => c.levels.AreBytes
  | .complete _ c _ r => c.levels.AreBytes ∧ r.sums.Fit
  | .fail .. => True

/-- Makes a call on the store, and passes on the id that it answers, if it answers one. -/
def answering {α : Type} (action : Transaction α) (id? : α → Option String) (s : Store) :
    Except StoreError (Option String) × Store :=
  ((action.call s).1.map id?, (action.call s).2)

/-- Makes the call. -/
def run (call : BuildCall) (s : Store) : Except StoreError (Option String) × Store :=
  match call with
  | .begin m itemId stat c version =>
    answering (Transaction.markProcessing m itemId stat c version) some s
  | .complete m c version r => answering (Transaction.upsertCompleted m c version r) some s
  | .fail m id error => answering (Transaction.markFailed m id error) (fun _ => none) s

/-- The store after some calls. -/
def after (calls : List BuildCall) (s : Store) : Store :=
  calls.foldl (fun s call => (call.run s).2) s

/-- The call touches the row of a key: it is given the key, or the id of the row. -/
def Touches (rows : List BuildRow) (key : BuildKey) : BuildCall → Prop
  | .begin _ itemId stat c version => .of itemId stat c version = key
  | .complete _ c version r => .of r.itemId r.stat c version = key
  | .fail _ id _ => ∃ row ∈ rows, row.id = id ∧ row.key = key

instance decidableTouches (rows : List BuildRow) (key : BuildKey) (call : BuildCall) :
    Decidable (call.Touches rows key) :=
  match call with
  | .begin .. => inferInstanceAs (Decidable (_ = _))
  | .complete .. => inferInstanceAs (Decidable (_ = _))
  | .fail .. => inferInstanceAs (Decidable (∃ row ∈ rows, _))

/-- The last of some calls that touched the row of a key, each at its time. -/
def lastTouch? (start : Store) (key : BuildKey) (calls : List BuildCall) : Option BuildCall :=
  (calls.foldl (fun (s, last) call =>
    ((call.run s).2, if call.Touches s.buildRows key then some call else last)) (start, none)).2

variable {start s : Store} {calls : List BuildCall} {call : BuildCall} {key : BuildKey}
  {rows : List BuildRow} {row : BuildRow}

theorem after_concat (calls : List BuildCall) (call : BuildCall) (s : Store) :
    after (calls ++ [call]) s = (call.run (after calls s)).2 :=
  List.foldl_append

theorem lastTouch?_concat (start : Store) (key : BuildKey) (calls : List BuildCall)
    (call : BuildCall) :
    lastTouch? start key (calls ++ [call]) =
      if call.Touches (after calls start).buildRows key then some call
      else lastTouch? start key calls := by
  have hstore : ∀ calls : List BuildCall, (calls.foldl (fun (s, last) call =>
      ((call.run s).2, if call.Touches s.buildRows key then some call else last))
      (start, none)).1 = after calls start := by
    intro calls
    induction calls using List.reverseRecOn with
    | nil => rfl
    | append_singleton calls call ih =>
      rw [after_concat, ← ih, List.foldl_append]
      rfl
  rw [← hstore calls, lastTouch?, List.foldl_append]
  rfl

/-! ### What a call does to the rows -/

open Transaction (withBuild buildFor failedRow begun rewritten)

/-- The rows after a call. -/
def rowsAfter : BuildCall → List BuildRow → List BuildRow
  | .begin m itemId stat c version, rows =>
    withBuild m itemId stat c version .processing none rows
  | .complete m c version r, rows =>
    withBuild m r.itemId r.stat c version .completed (some r) rows
  | .fail m id error, rows => (updateRows (fun row => row.id == id) (failedRow m error) rows).1

theorem answering_ok {α : Type} {action : Transaction α} {id? : α → Option String} {a : α}
    {s' : Store} (h : action s = .ok (a, s')) : answering action id? s = (.ok (id? a), s') := by
  rw [answering, Transaction.call_ok h]
  rfl

theorem run_begin (h : s.builds = some rows) (m : Moment) (itemId : String) (stat : Stat)
    (c : Constraints) (version : String) :
    (begin m itemId stat c version).run s =
      (.ok (some (buildFor m itemId stat c version .processing none rows).id),
        s.put .builds (some ((begin m itemId stat c version).rowsAfter rows))) :=
  answering_ok (Transaction.upsertBuild_eq h m itemId stat c version .processing none)

theorem run_complete (h : s.builds = some rows) (m : Moment) (c : Constraints) (version : String)
    (r : BuildResult) :
    (complete m c version r).run s =
      (.ok (some (buildFor m r.itemId r.stat c version .completed (some r) rows).id),
        s.put .builds (some ((complete m c version r).rowsAfter rows))) :=
  answering_ok (Transaction.upsertBuild_eq h m r.itemId r.stat c version .completed (some r))

/-- There is no row with the id. -/
theorem run_fail_unknown (h : s.builds = some rows) {id : String} (hid : ∀ row ∈ rows, row.id ≠ id)
    (m : Moment) (error : String) :
    (fail m id error).run s = (.error (.notFound Table.builds.name id), s) := by
  have hcount : (updateRows (fun row => row.id == id) (failedRow m error) rows).2 = 0 :=
    updateRows_count_eq_zero fun row hrow => beq_eq_false_iff_ne.mpr (hid row hrow)
  have hrows : s.rows? .builds = some rows := h
  have haction : Transaction.markFailed m id error s = .error (.notFound Table.builds.name id) := by
    rw [Transaction.markFailed, Transaction.rows_bind hrows]
    show (if (updateRows (fun row => row.id == id) (failedRow m error) rows).2 = 0 then _ else _ :
      Transaction Unit) s = _
    rw [if_pos hcount]
    rfl
  rw [run, answering, Transaction.call_error haction]
  rfl

/-- The row with the id is changed. -/
theorem run_fail_known (h : s.builds = some rows) (hrow : row ∈ rows) (m : Moment)
    (error : String) :
    (fail m row.id error).run s =
      (.ok none, s.put .builds (some ((fail m row.id error).rowsAfter rows))) := by
  have hcount := @updateRows_count_ne_zero _ (failedRow m error) rows
    (fun other => other.id == row.id) row hrow (beq_self_eq_true row.id)
  rcases Transaction.markFailed_eq h m row.id error with ⟨e, -, hzero⟩ | hok
  · exact absurd hzero hcount
  · exact answering_ok hok

theorem builds_run (h : s.builds = some rows) (call : BuildCall) :
    (call.run s).2.builds = some (call.rowsAfter rows) := by
  cases call with
  | begin m itemId stat c version =>
    rw [run_begin h]
    rfl
  | complete m c version r =>
    rw [run_complete h]
    rfl
  | fail m id error =>
    by_cases hid : ∃ row ∈ rows, row.id = id
    · obtain ⟨row, hrow, rfl⟩ := hid
      rw [run_fail_known h hrow]
      rfl
    · have hid : ∀ row ∈ rows, row.id ≠ id := fun row hrow heq => hid ⟨row, hrow, heq⟩
      rw [run_fail_unknown h hid, rowsAfter, updateRows_eq_self
        (updateRows_count_eq_zero fun row hrow => beq_eq_false_iff_ne.mpr (hid row hrow))]
      exact h

/-- **The rows of other keys** stay as they are. -/
theorem filter_rowsAfter (h : ¬ call.Touches rows key) :
    (call.rowsAfter rows).filter (fun row => decide (row.key = key)) =
      rows.filter fun row => decide (row.key = key) := by
  have hwrite : ∀ {m itemId stat c version status result}, BuildKey.of itemId stat c version ≠ key →
      (withBuild m itemId stat c version status result rows).filter
        (fun row => decide (row.key = key)) = rows.filter fun row => decide (row.key = key) := by
    intro m itemId stat c version status result hne
    refine filter_upsertRow_of_disjoint (fun _ h => h) (decide_eq_true rfl) fun row hrow => ?_
    exact decide_eq_false fun heq => hne ((of_decide_eq_true hrow).symm.trans heq)
  cases call with
  | begin m itemId stat c version => exact hwrite h
  | complete m c version r => exact hwrite h
  | fail m id error =>
    refine filter_updateRows (fun row hrow hkey => ?_) fun _ => rfl
    rw [beq_eq_false_iff_ne]
    exact fun hid => h ⟨row, hrow, hid, of_decide_eq_true hkey⟩

/-- Rows keep their keys and ids, and their places; at most one is added. -/
theorem prefix_map_rowsAfter (call : BuildCall) (rows : List BuildRow) :
    rows.map (fun row => (row.key, row.id)) <+:
      (call.rowsAfter rows).map fun row => (row.key, row.id) := by
  have hwrite : ∀ m itemId stat c version status result,
      rows.map (fun row => (row.key, row.id)) <+:
        (withBuild m itemId stat c version status result rows).map
          fun row => (row.key, row.id) := by
    intro m itemId stat c version status result
    have hsame : ∀ row, (fun row : BuildRow => (row.key, row.id)) (rewritten m status result row) =
        (row.key, row.id) := fun _ => rfl
    rw [withBuild, map_upsertRow fun row _ => hsame row]
    split
    · exact List.prefix_rfl
    · exact List.prefix_append _ _
  cases call with
  | begin m itemId stat c version => exact hwrite ..
  | complete m c version r => exact hwrite ..
  | fail m id error =>
    have hsame : ∀ row, (fun row : BuildRow => (row.key, row.id)) (failedRow m error row) =
        (row.key, row.id) := fun _ => rfl
    rw [rowsAfter, map_updateRows hsame]

/-- Keys stay without repetition. -/
theorem nodup_keys_rowsAfter (h : (rows.map BuildRow.key).Nodup) (call : BuildCall) :
    ((call.rowsAfter rows).map BuildRow.key).Nodup := by
  have hwrite : ∀ m itemId stat c version status result,
      ((withBuild m itemId stat c version status result rows).map BuildRow.key).Nodup := by
    intro m itemId stat c version status result
    refine nodup_map_upsertRow (fun _ _ => rfl) (fun hnone hmem => ?_) h
    obtain ⟨row, hrow, hkey⟩ := List.mem_map.mp hmem
    exact List.find?_eq_none.mp hnone row hrow (decide_eq_true hkey)
  cases call with
  | begin m itemId stat c version => exact hwrite ..
  | complete m c version r => exact hwrite ..
  | fail m id error =>
    have hsame : ∀ row, (failedRow m error row).key = row.key := fun _ => rfl
    rw [rowsAfter, map_updateRows hsame]
    exact h

/-- Ids stay without repetition, if the one that is brought along is not in use. -/
theorem nodup_ids_rowsAfter (h : (rows.map BuildRow.id).Nodup)
    (hfresh : ∀ id, call.fresh? = some id → id ∉ rows.map BuildRow.id) :
    ((call.rowsAfter rows).map BuildRow.id).Nodup := by
  cases call with
  | begin m itemId stat c version =>
    exact nodup_map_upsertRow (fun _ _ => rfl) (fun _ => hfresh _ rfl) h
  | complete m c version r =>
    exact nodup_map_upsertRow (fun _ _ => rfl) (fun _ => hfresh _ rfl) h
  | fail m id error =>
    have hsame : ∀ row, (failedRow m error row).id = row.id := fun _ => rfl
    rw [rowsAfter, map_updateRows hsame]
    exact h

/-- A row of a key that is not touched was there before. -/
theorem mem_of_not_touches (h : ¬ call.Touches rows row.key) (hrow : row ∈ call.rowsAfter rows) :
    row ∈ rows := by
  have hmem : row ∈ (call.rowsAfter rows).filter fun other => decide (other.key = row.key) :=
    List.mem_filter.mpr ⟨hrow, decide_eq_true rfl⟩
  rw [filter_rowsAfter h] at hmem
  exact (List.mem_filter.mp hmem).1

/-- A key that has a row keeps one. -/
theorem exists_row_rowsAfter (hrow : row ∈ rows) (call : BuildCall) :
    ∃ row' ∈ call.rowsAfter rows, row'.key = row.key ∧ row'.id = row.id := by
  obtain ⟨row', hrow', hsame⟩ := List.mem_map.mp
    ((call.prefix_map_rowsAfter rows).subset (List.mem_map_of_mem hrow))
  exact ⟨row', hrow', Prod.mk.inj hsame⟩

/-- Every id is an old one or the one that is brought along. -/
theorem ids_rowsAfter_subset (call : BuildCall) (rows : List BuildRow) :
    (call.rowsAfter rows).map BuildRow.id ⊆ rows.map BuildRow.id ++ call.fresh?.toList := by
  have hwrite : ∀ m itemId stat c version status result,
      (withBuild m itemId stat c version status result rows).map BuildRow.id ⊆
        rows.map BuildRow.id ++ [m.fresh] := by
    intro m itemId stat c version status result
    have hsame : ∀ row, (rewritten m status result row).id = row.id := fun _ => rfl
    rw [withBuild, map_upsertRow fun row _ => hsame row]
    split
    · exact List.subset_append_left _ _
    · exact List.Subset.refl _
  cases call with
  | begin m itemId stat c version => exact hwrite ..
  | complete m c version r => exact hwrite ..
  | fail m id error =>
    have hsame : ∀ row, (failedRow m error row).id = row.id := fun _ => rfl
    rw [rowsAfter, map_updateRows hsame]
    exact List.subset_append_left _ _

/-! ### What the rows say -/

/-- What a call leaves in the row that it touches. -/
def Leaves : BuildCall → BuildRow → Prop
  | .begin .., row =>
    row.status = BuildStatus.processing.keyword ∧ row.result = none ∧ row.error = none
  | .complete _ _ _ r, row =>
    row.status = BuildStatus.completed.keyword ∧ row.result = some r.toJson.print ∧ row.error = none
  | .fail _ _ error, row => row.status = BuildStatus.failed.keyword ∧ row.error = some error

/-- The row that is written for a key. -/
theorem buildFor_columns (m : Moment) (itemId : String) (stat : Stat) (c : Constraints)
    (version : String) (status : BuildStatus) (result : Option BuildResult)
    (rows : List BuildRow) :
    let row := buildFor m itemId stat c version status result rows
    row.key = .of itemId stat c version ∧ row.status = status.keyword ∧
      row.result = result.map (fun r => r.toJson.print) ∧ row.error = none := by
  intro row
  cases hfind : rows.find? fun row => decide (row.key = .of itemId stat c version) with
  | none =>
    have hrow : row = (begun m itemId stat c version status result).row := by
      show buildFor m itemId stat c version status result rows = _
      rw [buildFor, hfind]
      rfl
    rw [hrow]
    exact ⟨rfl, rfl, rfl, rfl⟩
  | some old =>
    have hsought := List.find?_some hfind
    have hrow : row = rewritten m status result old := by
      show buildFor m itemId stat c version status result rows = _
      rw [buildFor, hfind]
      rfl
    rw [hrow]
    exact ⟨of_decide_eq_true hsought, rfl, rfl, rfl⟩

theorem buildFor_mem (m : Moment) (itemId : String) (stat : Stat) (c : Constraints)
    (version : String) (status : BuildStatus) (result : Option BuildResult)
    (rows : List BuildRow) :
    buildFor m itemId stat c version status result rows ∈
      withBuild m itemId stat c version status result rows :=
  List.mem_of_find?_eq_some (Transaction.find?_withBuild m itemId stat c version status result rows)

/-- **A key that is touched** has a row in which the call leaves its mark. -/
theorem leaves_of_touches (hkeys : (rows.map BuildRow.key).Nodup) (h : call.Touches rows row.key)
    (hrow : row ∈ call.rowsAfter rows) : call.Leaves row := by
  have hkeys' := nodup_keys_rowsAfter hkeys call
  cases call with
  | begin m itemId stat c version =>
    obtain ⟨hkey, hcolumns⟩ := buildFor_columns m itemId stat c version .processing none rows
    have hmem := buildFor_mem m itemId stat c version .processing none rows
    rwa [List.inj_on_of_nodup_map hkeys' hmem hrow (hkey.trans h)] at hcolumns
  | complete m c version r =>
    obtain ⟨hkey, hcolumns⟩ :=
      buildFor_columns m r.itemId r.stat c version .completed (some r) rows
    have hmem := buildFor_mem m r.itemId r.stat c version .completed (some r) rows
    rwa [List.inj_on_of_nodup_map hkeys' hmem hrow (hkey.trans h)] at hcolumns
  | fail m id error =>
    obtain ⟨touched, htouched, hid, hkey⟩ := h
    obtain ⟨old, hold, rfl⟩ := List.mem_map.mp hrow
    by_cases hsame : old.id = id
    · rw [if_pos (beq_iff_eq.mpr hsame)]
      exact ⟨rfl, rfl⟩
    · -- The row that is touched has the same key, so it is the same row.
      rw [if_neg fun heq => hsame (beq_iff_eq.mp heq)] at hkey
      exact absurd (List.inj_on_of_nodup_map hkeys htouched hold hkey ▸ hid) hsame

theorem exists_row_of_touches (h : call.Touches rows key) :
    ∃ row ∈ call.rowsAfter rows, row.key = key := by
  cases call with
  | begin m itemId stat c version =>
    exact ⟨_, buildFor_mem .., (buildFor_columns ..).1.trans h⟩
  | complete m c version r => exact ⟨_, buildFor_mem .., (buildFor_columns ..).1.trans h⟩
  | fail m id error =>
    obtain ⟨row, hrow, -, rfl⟩ := h
    obtain ⟨row', hrow', hkey, -⟩ := exists_row_rowsAfter hrow (fail m id error)
    exact ⟨row', hrow', hkey⟩

end BuildCall

/-- The constraints and the result in a row can be read. -/
structure BuildRow.Legible (row : BuildRow) : Prop where
  constraints : ∃ c, Column.json 4 Constraints.ofJson? row.constraints = .ok c
  result : ∃ result : Option BuildResult, row.result = result.map (fun r => r.toJson.print) ∧
    ∀ r, result = some r → r.sums.Fit

namespace BuildCall

variable {start s : Store} {calls : List BuildCall} {call : BuildCall} {key : BuildKey}
  {rows : List BuildRow} {row : BuildRow}

open Transaction (withBuild)

/-- Rows stay legible. -/
theorem legible_rowsAfter (h : ∀ row ∈ rows, row.Legible) (hcall : call.Fits)
    (hrow : row ∈ call.rowsAfter rows) : row.Legible := by
  have hwrite : ∀ m itemId stat c version status (result : Option BuildResult),
      c.levels.AreBytes → (∀ r, result = some r → r.sums.Fit) →
      row ∈ withBuild m itemId stat c version status result rows → row.Legible := by
    intro m itemId stat c version status result hbytes hfit hrow
    rcases mem_upsertRow hrow with hold | ⟨old, hold, -, rfl⟩ | rfl
    · exact h row hold
    · exact ⟨(h old hold).constraints, result, rfl, hfit⟩
    · exact ⟨⟨c, Column.json_print 4 (Constraints.ofJson?_toJson_of_bytes hbytes)⟩, result, rfl,
        hfit⟩
  cases call with
  | begin m itemId stat c version => exact hwrite _ _ _ _ _ _ _ hcall (fun _ hr => by cases hr) hrow
  | complete m c version r =>
    exact hwrite _ _ _ _ _ _ _ hcall.1 (fun r' hr' => Option.some.inj hr' ▸ hcall.2) hrow
  | fail m id error =>
    rcases mem_updateRows hrow with hold | ⟨old, hold, -, rfl⟩
    · exact h row hold
    · exact ⟨(h old hold).constraints, (h old hold).result⟩

/-- The rows tell what some calls left there. -/
structure Tells (start : Store) (calls : List BuildCall) (rows : List BuildRow) : Prop where
  table : (after calls start).builds = some rows
  keys : (rows.map BuildRow.key).Nodup
  ids : (rows.map BuildRow.id).Nodup
  brought : rows.map BuildRow.id ⊆ calls.filterMap fresh?
  legible : ∀ row ∈ rows, row.Legible
  told : ∀ row ∈ rows, ∃ call ∈ calls, lastTouch? start row.key calls = some call ∧ call.Leaves row
  kept : ∀ key call, lastTouch? start key calls = some call → ∃ row ∈ rows, row.key = key

theorem tells_nil (h : start.builds = some []) : Tells start [] [] where
  table := h
  keys := List.nodup_nil
  ids := List.nodup_nil
  brought := List.Subset.refl _
  legible := nofun
  told := nofun
  kept := nofun

/-- **One call** keeps what the rows tell. -/
theorem Tells.step (h : Tells start calls rows) (hcall : call.Fits)
    (hfresh : ((calls ++ [call]).filterMap fresh?).Nodup) :
    Tells start (calls ++ [call]) (call.rowsAfter rows) := by
  have hrows : (after calls start).buildRows = rows := Store.buildRows_eq h.table
  have htouch : ∀ key, lastTouch? start key (calls ++ [call]) =
      if call.Touches rows key then some call else lastTouch? start key calls := by
    intro key
    rw [lastTouch?_concat, hrows]
  rw [List.filterMap_append] at hfresh
  have hbrought : ∀ id, call.fresh? = some id → id ∉ calls.filterMap fresh? := by
    intro id hid hmem
    have hlast : id ∈ [call].filterMap fresh? :=
      List.mem_filterMap.mpr ⟨call, List.mem_singleton_self call, hid⟩
    exact List.disjoint_of_nodup_append hfresh hmem hlast
  exact {
    table := by
      rw [after_concat]
      exact builds_run h.table call
    keys := nodup_keys_rowsAfter h.keys call
    ids := nodup_ids_rowsAfter h.ids fun id hid hmem => hbrought id hid (h.brought hmem)
    brought := by
      intro id hid
      rw [List.filterMap_append]
      rcases List.mem_append.mp (call.ids_rowsAfter_subset rows hid) with hold | hnew
      · exact List.mem_append_left _ (h.brought hold)
      · exact List.mem_append_right _ (List.mem_filterMap.mpr
          ⟨call, List.mem_singleton_self call, Option.mem_toList.mp hnew⟩)
    legible := fun row hrow => legible_rowsAfter h.legible hcall hrow
    told := by
      intro row hrow
      rw [htouch]
      by_cases htouches : call.Touches rows row.key
      · rw [if_pos htouches]
        exact ⟨call, List.mem_append_right _ (List.mem_singleton_self call), rfl,
          leaves_of_touches h.keys htouches hrow⟩
      · rw [if_neg htouches]
        obtain ⟨other, hother, htold⟩ := h.told row (mem_of_not_touches htouches hrow)
        exact ⟨other, List.mem_append_left _ hother, htold⟩
    kept := by
      intro key other hother
      rw [htouch] at hother
      by_cases htouches : call.Touches rows key
      · exact exists_row_of_touches htouches
      · rw [if_neg htouches] at hother
        obtain ⟨row, hrow, rfl⟩ := h.kept key other hother
        obtain ⟨row', hrow', hkey, -⟩ := exists_row_rowsAfter hrow call
        exact ⟨row', hrow', hkey⟩ }

/-- **A run of calls** keeps what the rows tell. -/
theorem tells_after (h : start.builds = some []) (hcalls : ∀ call ∈ calls, call.Fits)
    (hfresh : (calls.filterMap fresh?).Nodup) : ∃ rows, Tells start calls rows := by
  induction calls using List.reverseRecOn with
  | nil => exact ⟨[], tells_nil h⟩
  | append_singleton calls call ih =>
    have hnodup : (calls.filterMap fresh?).Nodup := by
      rw [List.filterMap_append] at hfresh
      exact hfresh.of_append_left
    obtain ⟨rows, htells⟩ := ih (fun other hother => hcalls other (List.mem_append_left _ hother))
      hnodup
    exact ⟨_, htells.step (hcalls call (List.mem_append_right _ (List.mem_singleton_self call)))
      hfresh⟩

/-! ### What is answered -/

/-- A call that is given a key answers the id of the row of the key. -/
theorem run_answers (h : s.builds = some rows) (hkey : call.key? = some key) :
    ∃ row ∈ call.rowsAfter rows, row.key = key ∧ (call.run s).1 = .ok (some row.id) := by
  cases call with
  | begin m itemId stat c version =>
    refine ⟨_, buildFor_mem .., (buildFor_columns ..).1.trans (Option.some.inj hkey), ?_⟩
    rw [run_begin h]
  | complete m c version r =>
    refine ⟨_, buildFor_mem .., (buildFor_columns ..).1.trans (Option.some.inj hkey), ?_⟩
    rw [run_complete h]
  | fail m id error => cases hkey

/-- **Rows stay** where they are along a run, with their keys and ids. -/
theorem prefix_map_after (h : s.builds = some rows) (later : List BuildCall) :
    ∃ rows', (after later s).builds = some rows' ∧
      rows.map (fun row => (row.key, row.id)) <+: rows'.map fun row => (row.key, row.id) := by
  induction later using List.reverseRecOn with
  | nil => exact ⟨rows, h, List.prefix_rfl⟩
  | append_singleton later call ih =>
    obtain ⟨rows', hrows', hinit⟩ := ih
    refine ⟨call.rowsAfter rows', ?_, hinit.trans (call.prefix_map_rowsAfter rows')⟩
    rw [after_concat]
    exact builds_run hrows' call

/-- The row of a key is the one that is found. -/
theorem Tells.find?_key (h : Tells start calls rows) (hrow : row ∈ rows) (hkey : row.key = key) :
    rows.find? (fun row => decide (row.key = key)) = some row := by
  cases hfind : rows.find? fun row => decide (row.key = key) with
  | none => exact absurd (decide_eq_true hkey) (List.find?_eq_none.mp hfind row hrow)
  | some other =>
    have hsought := List.find?_some hfind
    have hother := List.mem_of_find?_eq_some hfind
    rw [List.inj_on_of_nodup_map h.keys hother hrow ((of_decide_eq_true hsought).trans hkey.symm)]

/-- The row of a key that a call was given is there after the run, with the id that was answered. -/
theorem Tells.answered (h : Tells start calls rows) (hstart : start.builds = some [])
    {before : List BuildCall} (hinit : before ++ [call] <+: calls) (hkey : call.key? = some key) :
    ∃ row ∈ rows, row.key = key ∧ (call.run (after before start)).1 = .ok (some row.id) := by
  obtain ⟨later, rfl⟩ := hinit
  obtain ⟨rows', htable, -⟩ := prefix_map_after hstart before
  obtain ⟨row, hrow, hrowKey, hanswer⟩ := run_answers htable hkey
  have hcalled := builds_run htable call
  rw [← after_concat] at hcalled
  obtain ⟨rows'', hlater, hinit⟩ := prefix_map_after hcalled later
  have hfinal : after later (after (before ++ [call]) start) =
      after (before ++ [call] ++ later) start := List.foldl_append.symm
  rw [hfinal, h.table] at hlater
  obtain rfl := Option.some.inj hlater
  obtain ⟨row', hrow', hsame⟩ := List.mem_map.mp (hinit.subset (List.mem_map_of_mem hrow))
  obtain ⟨hsameKey, hsameId⟩ := Prod.mk.inj hsame
  exact ⟨row', hrow', hsameKey.trans hrowKey, hsameId ▸ hanswer⟩

/-- The build in a row is in the state that the last touch left it in, and if that completed it then
with the result. -/
theorem Tells.build (h : Tells start calls rows) (hcalls : ∀ call ∈ calls, call.Fits)
    (hrow : row ∈ rows) {stat : Stat} (hstat : row.stat = stat.name) :
    ∃ b call, row.build = .ok b ∧ lastTouch? start row.key calls = some call ∧
      ((b.status = .completed ∧
          ∃ m c version r, call = complete m c version r ∧ b.result = some r) ∨
        (b.status ≠ .completed ∧ ∀ m c version r, call ≠ complete m c version r)) := by
  obtain ⟨call, hmem, hlast, hleaves⟩ := h.told row hrow
  obtain ⟨⟨c, hconstraints⟩, result, hresult, hfit⟩ := h.legible row hrow
  cases call with
  | begin =>
    obtain ⟨hstatus, -, -⟩ := hleaves
    exact ⟨_, _, BuildRow.build_eq hstat hconstraints hstatus hresult hfit, hlast,
      Or.inr ⟨nofun, nofun⟩⟩
  | complete m c' version r =>
    obtain ⟨hstatus, hwritten, -⟩ := hleaves
    have hfit : ∀ r', some r = some r' → r'.sums.Fit := fun r' hr' =>
      Option.some.inj hr' ▸ (hcalls _ hmem).2
    exact ⟨_, _, @BuildRow.build_eq row stat c .completed (some r) hstat hconstraints hstatus
      hwritten hfit, hlast, Or.inl ⟨rfl, m, c', version, r, rfl, rfl⟩⟩
  | fail =>
    obtain ⟨hstatus, -⟩ := hleaves
    exact ⟨_, _, BuildRow.build_eq hstat hconstraints hstatus hresult hfit, hlast,
      Or.inr ⟨nofun, nofun⟩⟩

/-- A key that a call was given has a row. -/
theorem Tells.exists_row (h : Tells start calls rows) (hstart : start.builds = some [])
    (hcall : call ∈ calls) (hkey : call.key? = some key) : ∃ row ∈ rows, row.key = key := by
  obtain ⟨before, later, rfl⟩ := List.append_of_mem hcall
  have hinit : before ++ [call] <+: before ++ call :: later := ⟨later, by simp⟩
  obtain ⟨row, hrow, hrowKey, -⟩ := h.answered hstart hinit hkey
  exact ⟨row, hrow, hrowKey⟩

/-- What a look-up of a completed build answers. -/
theorem Tells.completedBuild (h : Tells start calls rows) (hcalls : ∀ call ∈ calls, call.Fits)
    (itemId : String) (stat : Stat) (c : Constraints) (version : String) :
    ∃ found, (after calls start).completedBuild itemId stat c version = .ok found ∧
      (found.isSome ↔ ∃ m c' version' r,
        lastTouch? start (.of itemId stat c version) calls = some (complete m c' version' r)) ∧
      ∀ b ∈ found, b.status = .completed ∧ ∃ m c' version' r, b.result = some r ∧
        lastTouch? start (.of itemId stat c version) calls = some (complete m c' version' r) := by
  have hfind := @Store.findBuild_eq (after calls start) itemId version stat c rows h.table
  cases hrow : rows.find? fun row => row.key = .of itemId stat c version with
  | none =>
    rw [hrow] at hfind
    refine ⟨none, Store.completedBuild_eq hfind, ⟨nofun, ?_⟩, nofun⟩
    rintro ⟨m, c', version', r, hlast⟩
    obtain ⟨row, hmem, hkey⟩ := h.kept _ _ hlast
    exact absurd (decide_eq_true hkey) (List.find?_eq_none.mp hrow row hmem)
  | some row =>
    have hsought := List.find?_some hrow
    have hkey := of_decide_eq_true hsought
    obtain ⟨b, call, hbuild, hlast, hstate⟩ :=
      h.build hcalls (List.mem_of_find?_eq_some hrow) (congrArg BuildKey.stat hkey)
    rw [hkey] at hlast
    rw [hrow] at hfind
    simp only [hbuild] at hfind
    refine ⟨_, Store.completedBuild_eq hfind, ?_⟩
    rw [hlast]
    rcases hstate with ⟨hstatus, m, c', version', r, rfl, hresult⟩ | ⟨hstatus, hcall⟩
    · rw [Option.filter_some, if_pos (decide_eq_true hstatus)]
      refine ⟨⟨fun _ => ⟨m, c', version', r, rfl⟩, fun _ => rfl⟩, fun b' hb' => ?_⟩
      obtain rfl := Option.some.inj hb'
      exact ⟨hstatus, m, c', version', r, hresult, rfl⟩
    · rw [Option.filter_some, if_neg fun hcompleted => hstatus (of_decide_eq_true hcompleted)]
      refine ⟨⟨nofun, ?_⟩, nofun⟩
      rintro ⟨m, c', version', r, hlast⟩
      exact absurd (Option.some.inj hlast) (hcall m c' version' r)

/-! ### After a run -/

/-- What holds after some calls on an empty table of builds. -/
structure Bookkeeping (start : Store) (calls : List BuildCall) : Prop where
  /-- There is at most one row for each key. -/
  keys : ((after calls start).buildRows.map BuildRow.key).Nodup
  /-- Every call that is given a key succeeds and answers the id of its row: for each key it is
  always the same, and it is another one for every other key. -/
  answers : ∃ idOf : BuildKey → String,
    (∀ before call key, before ++ [call] <+: calls → call.key? = some key →
      (call.run (after before start)).1 = .ok (some (idOf key))) ∧
    (∀ call ∈ calls, ∀ call' ∈ calls, ∀ key key', call.key? = some key → call'.key? = some key' →
      idOf key = idOf key' → key = key') ∧
    ∀ row ∈ (after calls start).buildRows, row.id = idOf row.key
  /-- A row that is being processed has neither result nor error, a completed one has a result and
  no error, and one that has failed has an error. -/
  states : ∀ row ∈ (after calls start).buildRows,
    (row.status = BuildStatus.processing.keyword ∧ row.result = none ∧ row.error = none) ∨
    (row.status = BuildStatus.completed.keyword ∧ row.result.isSome ∧ row.error = none) ∨
    (row.status = BuildStatus.failed.keyword ∧ row.error.isSome)
  /-- A look-up of a completed build succeeds.  It finds one exactly if the last call that touched
  the key completed it, and then with the result of that call. -/
  completed : ∀ itemId stat c version, ∃ found,
    (after calls start).completedBuild itemId stat c version = .ok found ∧
      (found.isSome ↔ ∃ m c' version' r,
        lastTouch? start (.of itemId stat c version) calls = some (complete m c' version' r)) ∧
      ∀ b ∈ found, b.status = .completed ∧ ∃ m c' version' r, b.result = some r ∧
        lastTouch? start (.of itemId stat c version) calls = some (complete m c' version' r)
  /-- To fail a build that there is not fails for this reason and changes nothing. -/
  unknown : ∀ m id error, (∀ row ∈ (after calls start).buildRows, row.id ≠ id) →
    (fail m id error).run (after calls start) =
      (.error (.notFound "optimal_build" id), after calls start)
  /-- To fail any other build succeeds. -/
  known : ∀ m error, ∀ row ∈ (after calls start).buildRows,
    ((fail m row.id error).run (after calls start)).1 = .ok none
  /-- No call touches the rows of two keys, and it leaves the rows of all other keys as they are. -/
  others : ∀ before call, before ++ [call] <+: calls →
    (∀ key key', call.Touches (after before start).buildRows key →
      call.Touches (after before start).buildRows key' → key = key') ∧
    ∀ key, ¬ call.Touches (after before start).buildRows key →
      (after (before ++ [call]) start).buildRows.filter (fun row => decide (row.key = key)) =
        (after before start).buildRows.filter fun row => decide (row.key = key)

/-- A call touches one key at most. -/
theorem touches_unique (hids : (rows.map BuildRow.id).Nodup) {key' : BuildKey}
    (h : call.Touches rows key) (h' : call.Touches rows key') : key = key' := by
  cases call with
  | begin => exact h.symm.trans h'
  | complete => exact h.symm.trans h'
  | fail m id error =>
    obtain ⟨row, hrow, hid, rfl⟩ := h
    obtain ⟨row', hrow', hid', rfl⟩ := h'
    rw [List.inj_on_of_nodup_map hids hrow hrow' (hid.trans hid'.symm)]

/-- **The books of builds**: after any calls on an empty table of builds there is one row for each
key, with an id of its own, that tells the last touch. -/
theorem bookkeeping (h : start.builds = some []) (hcalls : ∀ call ∈ calls, call.Fits)
    (hfresh : (calls.filterMap fresh?).Nodup) : Bookkeeping start calls := by
  obtain ⟨rows, htells⟩ := tells_after h hcalls hfresh
  have hrows : (after calls start).buildRows = rows := Store.buildRows_eq htells.table
  exact {
    keys := hrows ▸ htells.keys
    answers := by
      let idOf (key : BuildKey) : String :=
        ((rows.find? fun row => decide (row.key = key)).map BuildRow.id).getD ""
      have hidOf : ∀ row ∈ rows, row.id = idOf row.key := by
        intro row hrow
        simp only [idOf, htells.find?_key hrow rfl, Option.map_some, Option.getD_some]
      refine ⟨idOf, fun before call key hinit hkey => ?_,
        fun call hcall call' hcall' key key' hkey hkey' hsame => ?_, hrows ▸ hidOf⟩
      · obtain ⟨row, hrow, rfl, hanswer⟩ := htells.answered h hinit hkey
        rw [hanswer, hidOf row hrow]
      · obtain ⟨row, hrow, rfl⟩ := htells.exists_row h hcall hkey
        obtain ⟨row', hrow', rfl⟩ := htells.exists_row h hcall' hkey'
        have hids : row.id = row'.id := by rw [hidOf row hrow, hidOf row' hrow', hsame]
        rw [List.inj_on_of_nodup_map htells.ids hrow hrow' hids]
    states := by
      intro row hrow
      obtain ⟨call, -, -, hleaves⟩ := htells.told row (hrows ▸ hrow)
      cases call with
      | begin => exact Or.inl hleaves
      | complete m c version r =>
        obtain ⟨hstatus, hresult, herror⟩ := hleaves
        exact Or.inr (Or.inl ⟨hstatus, hresult ▸ rfl, herror⟩)
      | fail m id error => exact Or.inr (Or.inr ⟨hleaves.1, hleaves.2 ▸ rfl⟩)
    completed := fun itemId stat c version => htells.completedBuild hcalls itemId stat c version
    unknown := fun m id error hid => run_fail_unknown htells.table (hrows ▸ hid) m error
    known := fun m error row hrow =>
      congrArg Prod.fst (run_fail_known htells.table (hrows ▸ hrow) m error)
    others := by
      intro before call hinit
      have hbefore := (List.prefix_append before [call]).trans hinit
      obtain ⟨rows', htells'⟩ := tells_after h
        (fun other hother => hcalls other (hbefore.subset hother))
        ((hbefore.sublist.filterMap fresh?).nodup hfresh)
      rw [Store.buildRows_eq htells'.table]
      refine ⟨fun key key' => touches_unique htells'.ids, fun key htouches => ?_⟩
      have hcalled := builds_run htells'.table call
      rw [← after_concat] at hcalled
      rw [Store.buildRows_eq hcalled]
      exact filter_rowsAfter htouches }

/-- Two versions of the catalogue: the build is completed for one and fails for the other. -/
def sampleCalls : List BuildCall :=
  [.begin ⟨"1", "a"⟩ "w" .recoil (.ofLevels (.uniform 4)) "1",
    .complete ⟨"2", "b"⟩ (.ofLevels (.uniform 4)) "1" ⟨"w", "Rifle", .recoil, ⟨80, 40⟩, []⟩,
    .begin ⟨"3", "c"⟩ "w" .recoil (.ofLevels (.uniform 4)) "2",
    .fail ⟨"4", ""⟩ "c" "boom", .fail ⟨"5", ""⟩ "b" "boom"]

theorem bookkeeping_sample : Store.fresh.builds = some [] ∧
    (after sampleCalls Store.fresh).buildRows.map BuildRow.id = ["a", "c"] ∧
    (after sampleCalls Store.fresh).buildRows.map BuildRow.status = ["COMPLETED", "FAILED"] ∧
    Bookkeeping Store.fresh sampleCalls := by
  have hbytes : (TraderLevels.uniform 4).AreBytes := by
    intro t n hn
    obtain rfl := Option.some.inj hn
    decide
  have hfit : Totals.Fit ⟨80, 40⟩ := by constructor <;> constructor <;> decide
  have hcalls : ∀ call ∈ sampleCalls, call.Fits := by
    intro call hcall
    simp only [sampleCalls, List.mem_cons, List.not_mem_nil, or_false] at hcall
    rcases hcall with rfl | rfl | rfl | rfl | rfl
    · exact hbytes
    · exact ⟨hbytes, hfit⟩
    · exact hbytes
    · trivial
    · trivial
  exact ⟨rfl, by decide +kernel, by decide +kernel, bookkeeping rfl hcalls (by decide)⟩

end BuildCall

end Gunsmith
