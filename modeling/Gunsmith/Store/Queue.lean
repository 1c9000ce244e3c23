/-
  The queue of jobs.

  A job waits until it is claimed.  Claims take the job with the highest priority, among
  these the one that was created first, and among these the one that was entered first;
  a claimed job is being processed by the time the claim answers.  A job that has ended
  stays ended.

  Rows hold texts, so a row may fail to decode.  Such a row blocks nothing but itself,
  unless it is first in line: then the claim fails and changes nothing.
-/
import Gunsmith.Json.Forms
import Gunsmith.Json.Printer
import Gunsmith.Json.Reader
import Gunsmith.Store.Tables

namespace Gunsmith

/-! ### Columns -/

/-- Reads a keyword from a column. -/
def Column.parse {α : Type} (index : Nat) (result : Except String α) : Except StoreError α :=
  result.mapError (StoreError.unreadableColumn index)

/-- Reads the JSON text in a column. -/
def Column.json {α : Type} (index : Nat) (read : Json → Option α) (text : String) :
    Except StoreError α :=
  match (Json.read text).bind read with
  | some a => .ok a
  | none => .error (.unreadableColumn index "malformed JSON")

/-- The job in a row. -/
def JobRow.job (row : JobRow) : Except StoreError Job := do
  let stat ← Column.parse 2 (Stat.parse row.stat)
  let constraints ← Column.json 3 Constraints.ofJson? row.constraints
  let status ← Column.parse 5 (JobStatus.parse row.status)
  return {
    id := row.id
    itemId := row.itemId
    stat := stat
    constraints := constraints
    priority := row.priority
    status := status
    createdAt := row.createdAt
    startedAt := row.startedAt
    completedAt := row.completedAt
    error := row.error }

/-! ### Entering jobs -/

namespace Transaction

/-- Enters a row as it is; its id must be new. -/
def insertJob (row : JobRow) : Transaction Unit := do
  let rows ← rows .jobs
  if rows.any fun other => other.id == row.id then
    throw (.repeatedKey "evaluation_queue.job_id")
  write .jobs (rows ++ [row])

/-- Enters a job for an item and answers its id. -/
def enqueue (m : Moment) (itemId : String) (stat : Stat) (c : Constraints) (priority : Int) :
    Transaction String := do
  match c.validate with
  | .error detail => throw (.invalid detail)
  | .ok () =>
    if Text.isAllBlank itemId then
      throw (.badField "item_id" "不能为空")
    insertJob {
      id := m.fresh
      itemId := itemId
      stat := stat.name
      constraints := c.toJson.print
      priority := priority
      status := JobStatus.queued.keyword
      createdAt := m.now
      startedAt := none
      completedAt := none
      error := none }
    return m.fresh

end Transaction

/-! ### Claiming -/

/-- Row `a` is claimed no later than row `b`, where `a` was entered first. -/
def JobRow.Precedes (a b : JobRow) : Prop :=
  b.priority < a.priority ∨ (a.priority = b.priority ∧ a.createdAt ≤ b.createdAt)

instance JobRow.decidablePrecedes (a b : JobRow) : Decidable (a.Precedes b) :=
  inferInstanceAs (Decidable (_ ∨ _))

/-- The first of some rows in the order of claims. -/
def JobRow.first? : List JobRow → Option JobRow
  | [] => none
  | row :: rows =>
    match first? rows with
    | none => some row
    | some other => if row.Precedes other then some row else some other

/-- The waiting rows. -/
def JobRow.waiting (rows : List JobRow) : List JobRow :=
  rows.filter fun row => row.status == JobStatus.queued.keyword

namespace Transaction

/-- Claims the next job: it is being processed from now on. -/
def claim (m : Moment) : Transaction (Option Job) := do
  let rows ← rows .jobs
  match JobRow.first? (JobRow.waiting rows) with
  | none => return none
  | some row =>
    let job ← row.job
    let (updated, _) := updateRows
      (fun other => other.id == row.id && other.status == JobStatus.queued.keyword)
      (fun other =>
        { other with status := JobStatus.processing.keyword, startedAt := some m.now }) rows
    write .jobs updated
    return some { job with status := .processing, startedAt := some m.now }

/-! ### Moving jobs on -/

/-- Moves a job to a state, if the state that it is in allows that. -/
def moveJob (id : String) (sources : List JobStatus) (target : JobStatus)
    (change : JobRow → JobRow) : Transaction Unit := do
  let rows ← rows .jobs
  let allowed := sources.map JobStatus.keyword
  let (updated, count) :=
    updateRows (fun row => row.id == id && allowed.contains row.status) change rows
  if count = 0 then
    match rows.find? fun row => row.id = id with
    | none => throw (.notFound Table.jobs.name id)
    | some row => throw (.badTransition id row.status target.keyword)
  write .jobs updated

/-- A waiting job is being processed from now on. -/
def setProcessing (m : Moment) (id : String) : Transaction Unit :=
  moveJob id [.queued] .processing fun row =>
    { row with status := JobStatus.processing.keyword, startedAt := some m.now }

/-- A job that has not ended is completed. -/
def setCompleted (m : Moment) (id : String) : Transaction Unit :=
  moveJob id [.queued, .processing] .completed fun row =>
    { row with status := JobStatus.completed.keyword, completedAt := some m.now }

/-- A job that has not ended has failed, for the given reason. -/
def setFailed (m : Moment) (id error : String) : Transaction Unit :=
  moveJob id [.queued, .processing] .failed fun row =>
    { row with
      status := JobStatus.failed.keyword
      completedAt := some m.now
      error := some error }

end Transaction

/-! ### Looking -/

namespace Store

/-- The job with an id. -/
def job? (s : Store) (id : String) : Except StoreError (Option Job) := do
  let rows ← s.rows .jobs
  match rows.find? fun row => row.id = id with
  | none => return none
  | some row => return some (← row.job)

/-- How many rows are in a state, counted in 32 bits; rows in no known state are not counted. -/
def queueStats (s : Store) : Except StoreError QueueStats := do
  let rows ← s.rows .jobs
  let count := fun (status : JobStatus) =>
    (rows.filter fun row => row.status == status.keyword).length % UInt32.size
  return ⟨count .queued, count .processing, count .completed, count .failed⟩

end Store

end Gunsmith
