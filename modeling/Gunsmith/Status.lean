/-
  The states of jobs and of stored builds.

  A job waits, is being processed, and ends completed or failed; an ended job stays as
  it is.  A stored build has the last three states.  Each state has a keyword, by which
  it is stored, and a name, by which it is written in records.
-/

namespace Gunsmith

/-- The state of a job. -/
inductive JobStatus where
  | queued
  | processing
  | completed
  | failed
deriving DecidableEq, Inhabited

namespace JobStatus

/-- All states of a job. -/
def all : List JobStatus := [.queued, .processing, .completed, .failed]

/-- The keyword of a state. -/
def keyword : JobStatus → String
  | .queued => "QUEUED"
  | .processing => "PROCESSING"
  | .completed => "COMPLETED"
  | .failed => "FAILED"

/-- The name of a state. -/
def name : JobStatus → String
  | .queued => "Queued"
  | .processing => "Processing"
  | .completed => "Completed"
  | .failed => "Failed"

/-- No transition leads out of the state. -/
def Terminal : JobStatus → Prop
  | .queued => False
  | .processing => False
  | .completed => True
  | .failed => True

instance (status : JobStatus) : Decidable status.Terminal :=
  match status with
  | .queued => .isFalse id
  | .processing => .isFalse id
  | .completed => .isTrue trivial
  | .failed => .isTrue trivial

/-- Reads the keyword of a state, which has one spelling only. -/
def parse (text : String) : Except String JobStatus :=
  match all.find? fun status => status.keyword = text with
  | some status => .ok status
  | none => .error s!"未知的任务状态: {text}"

end JobStatus

/-- The state of a stored build. -/
inductive BuildStatus where
  | processing
  | completed
  | failed
deriving DecidableEq, Inhabited

namespace BuildStatus

/-- All states of a stored build. -/
def all : List BuildStatus := [.processing, .completed, .failed]

/-- The keyword of a state. -/
def keyword : BuildStatus → String
  | .processing => "PROCESSING"
  | .completed => "COMPLETED"
  | .failed => "FAILED"

/-- The name of a state. -/
def name : BuildStatus → String
  | .processing => "Processing"
  | .completed => "Completed"
  | .failed => "Failed"

/-- Reads the keyword of a state, which has one spelling only. -/
def parse (text : String) : Except String BuildStatus :=
  match all.find? fun status => status.keyword = text with
  | some status => .ok status
  | none => .error s!"未知的配置状态: {text}"

end BuildStatus

end Gunsmith
