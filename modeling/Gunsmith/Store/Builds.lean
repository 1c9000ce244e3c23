/-
  Stored builds.

  There is one row for each item, stat, constraints key and version of the catalogue.
  Writing a build again keeps the id of the row and the constraints written first, takes
  the new state and result, and forgets an earlier failure; a failure keeps the result
  that was there.
-/
import Gunsmith.Store.Queue

namespace Gunsmith

/-- The build in a row. -/
def BuildRow.build (row : BuildRow) : Except StoreError BuildRecord := do
  let stat ← Column.parse 2 (Stat.parse row.stat)
  let constraints ← Column.json 4 Constraints.ofJson? row.constraints
  let status ← Column.parse 5 (BuildStatus.parse row.status)
  let result ← match row.result with
    | none => pure none
    | some text => (Column.json 6 BuildResult.ofJson? text).map some
  return {
    id := row.id
    itemId := row.itemId
    stat := stat
    version := row.version
    constraints := constraints
    status := status
    result := result
    error := row.error
    createdAt := row.createdAt
    updatedAt := row.updatedAt }

/-- What identifies a stored build. -/
structure BuildKey where
  itemId : String
  stat : String
  constraintsKey : String
  version : String
deriving DecidableEq, Inhabited

/-- The key of a request. -/
def BuildKey.of (itemId : String) (stat : Stat) (c : Constraints) (version : String) : BuildKey :=
  ⟨itemId, stat.name, c.key, version⟩

/-- The key of a row. -/
def BuildRow.key (row : BuildRow) : BuildKey :=
  ⟨row.itemId, row.stat, row.constraintsKey, row.version⟩

namespace Store

/-- The build stored for a request, in whatever state. -/
def findBuild (s : Store) (itemId : String) (stat : Stat) (c : Constraints) (version : String) :
    Except StoreError (Option BuildRecord) := do
  let rows ← s.rows .builds
  match rows.find? fun row => row.key = .of itemId stat c version with
  | none => return none
  | some row => return some (← row.build)

/-- The completed build stored for a request. -/
def completedBuild (s : Store) (itemId : String) (stat : Stat) (c : Constraints)
    (version : String) : Except StoreError (Option BuildRecord) := do
  return (← s.findBuild itemId stat c version).filter fun build => build.status = .completed

end Store

namespace Transaction

/-- Writes the build for a request and answers the id of its row. -/
def upsertBuild (m : Moment) (itemId : String) (stat : Stat) (c : Constraints) (version : String)
    (status : BuildStatus) (result : Option BuildResult) : Transaction String := do
  let rows ← rows .builds
  let key := BuildKey.of itemId stat c version
  let text := result.map fun r => r.toJson.print
  let updated := upsertRow (fun row => row.key = key)
    (fun row =>
      { row with status := status.keyword, result := text, error := none, updatedAt := m.now })
    { id := m.fresh
      itemId := itemId
      stat := stat.name
      constraintsKey := c.key
      version := version
      constraints := c.toJson.print
      status := status.keyword
      result := text
      error := none
      createdAt := m.now
      updatedAt := m.now }
    rows
  write .builds updated
  match updated.find? fun row => row.key = key with
  | some row => return row.id
  | none => throw .noRows

/-- Records that the evaluation of a request has begun. -/
def markProcessing (m : Moment) (itemId : String) (stat : Stat) (c : Constraints)
    (version : String) : Transaction String :=
  upsertBuild m itemId stat c version .processing none

/-- Records the result of an evaluation, under the item and the stat that the result names. -/
def upsertCompleted (m : Moment) (c : Constraints) (version : String) (result : BuildResult) :
    Transaction String :=
  upsertBuild m result.itemId result.stat c version .completed (some result)

/-- Records that the evaluation behind a row has failed. -/
def markFailed (m : Moment) (id error : String) : Transaction Unit := do
  let rows ← rows .builds
  let (updated, count) := updateRows (fun row => row.id == id)
    (fun row =>
      { row with status := BuildStatus.failed.keyword, error := some error, updatedAt := m.now })
    rows
  if count = 0 then
    throw (.notFound Table.builds.name id)
  write .builds updated

end Transaction

end Gunsmith
