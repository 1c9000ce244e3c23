/-
  Processing a job from claim to end.

  A service evaluates requests down to a depth and for a version of the catalogue.
  Processing a job is a sequence of calls on the store, each of which is made as a whole
  (`Stage`):

    1. a build completed for the same request settles the job at once;
    2. otherwise the build is marked as being processed;
    3. a result kept for the same request that reaches the depth is taken as it is;
    4. otherwise the request is evaluated and its result is kept;
    5. the result is stored, and the job is completed.

  A failure on the way is recorded with the build, if there is one by then, and with the
  job, which thereby ends as failed.  Only a failure to record a failure is a failure of
  the processing itself.
-/
import Gunsmith.Cache
import Gunsmith.Snapshot
import Gunsmith.Store.Builds
import Gunsmith.Store.Subtrees

namespace Gunsmith

/-- How requests are evaluated. -/
structure Service where
  /-- The depth down to which candidates are considered. -/
  depth : Nat
  /-- The version of the catalogue that results are stored under. -/
  version : String
  /-- Where the data come from. -/
  source : Store → Provider (StateM Snapshot)

namespace Service

/-- The service over the catalogue of the store. -/
def ofStore (depth : Nat) (version : String) : Service :=
  ⟨depth, version, Snapshot.provider⟩

/-- The service with failures put in front of its source. -/
def withFaults (svc : Service) (faults : List Fault) : Service :=
  { svc with source := fun store => (svc.source store).withFaults faults }

end Service

/-- What a service works with: the store, the answers it remembers, and a cache. -/
structure Desk where
  store : Store
  memory : Snapshot
  cache : Cache

namespace Desk

/-- Makes a call on the store. -/
def call {α : Type} (desk : Desk) (action : Transaction α) : Except StoreError α × Desk :=
  let (answer, store) := action.call desk.store
  (answer, { desk with store := store })

end Desk

/-- How the processing of a job ended. -/
inductive Outcome where
  /-- A completed build was there already. -/
  | alreadyCompleted (buildId : String)
  /-- The build was evaluated, or taken from a result kept earlier, and stored. -/
  | completed (buildId : String) (sums : Totals) (fromSubtree : Bool)
  /-- Something failed, and the failure was recorded. -/
  | failed (message : String)
deriving DecidableEq, Inhabited

/-- The next call in the processing of a job. -/
inductive Stage where
  /-- Look for a completed build. -/
  | lookUp
  /-- Complete the job for the sake of a build that is there. -/
  | settle (buildId : String)
  /-- Mark the build as being processed. -/
  | mark
  /-- Look for a result kept earlier. -/
  | consult (buildId : String)
  /-- Collect the candidates and search them. -/
  | evaluate (buildId : String)
  /-- Keep the result. -/
  | keep (buildId : String) (result : BuildResult)
  /-- Store the result as the build. -/
  | publish (buildId : String) (result : BuildResult) (fromSubtree : Bool)
  /-- Complete the job; the second id is that of the row that took the result. -/
  | finish (buildId storedId : String) (result : BuildResult) (fromSubtree : Bool)
  /-- Record a failure with the build. -/
  | spoil (buildId message : String)
  /-- Record a failure with the job. -/
  | abandon (message : String)
  /-- Nothing is left to do. -/
  | done (answer : Except StoreError Outcome)

namespace Stage

/-- The most calls that can follow. -/
def rank : Stage → Nat
  | .lookUp => 9
  | .settle _ => 2
  | .mark => 8
  | .consult _ => 7
  | .evaluate _ => 6
  | .keep .. => 5
  | .publish .. => 4
  | .finish .. => 3
  | .spoil .. => 2
  | .abandon _ => 1
  | .done _ => 0

/-- The answer of the processing, once there is one. -/
def answer? : Stage → Option (Except StoreError Outcome)
  | .done answer => some answer
  | _ => none

end Stage

namespace Service

variable (svc : Service)

/-- Evaluates a request: collects the candidates and searches them, with the cache if it is one for
the same version of the catalogue. -/
def evaluate (itemId : String) (stat : Stat) (c : Constraints) :
    ExceptT EvalError (StateM Desk) SearchOutcome :=
  ExceptT.mk fun desk =>
    let reading := CandidateTree.build (svc.source desk.store) svc.depth itemId stat c
    match reading.run desk.memory with
    | (.error e, memory) => (.error e, { desk with memory := memory })
    | (.ok tree, memory) =>
      let cache := if desk.cache.version = svc.version then some Cache.access else none
      let (answer, store, cache) := (tree.search stat ∅ cache).run (desk.store, desk.cache)
      (answer, ⟨store, memory, cache⟩)

/-- Makes the next call for a job. -/
def step (m : Moment) (job : Job) (desk : Desk) : Stage → Stage × Desk
  | .lookUp =>
    match desk.store.completedBuild job.itemId job.stat job.constraints svc.version with
    | .ok (some build) => (.settle build.id, desk)
    | .ok none => (.mark, desk)
    | .error e => (.abandon e.message, desk)
  | .settle buildId =>
    match desk.call (.setCompleted m job.id) with
    | (.ok (), desk) => (.done (.ok (.alreadyCompleted buildId)), desk)
    | (.error e, desk) => (.abandon e.message, desk)
  | .mark =>
    match desk.call (.markProcessing m job.itemId job.stat job.constraints svc.version) with
    | (.ok buildId, desk) => (.consult buildId, desk)
    | (.error e, desk) => (.abandon e.message, desk)
  | .consult buildId =>
    match desk.store.subtree? job.itemId job.stat job.constraints svc.version svc.depth with
    | .ok (some entry) => (.publish buildId entry.result true, desk)
    | .ok none => (.evaluate buildId, desk)
    | .error e => (.spoil buildId e.message, desk)
  | .evaluate buildId =>
    match (svc.evaluate job.itemId job.stat job.constraints).run desk with
    | (.ok outcome, desk) => (.keep buildId outcome.result, desk)
    | (.error e, desk) => (.spoil buildId e.message, desk)
  | .keep buildId result =>
    let entry : SubtreeEntry :=
      ⟨job.itemId, job.stat, job.constraints, svc.version, svc.depth, result⟩
    match desk.call (.upsertSubtree entry) with
    | (.ok (), desk) => (.publish buildId result false, desk)
    | (.error e, desk) => (.spoil buildId e.message, desk)
  | .publish buildId result fromSubtree =>
    match desk.call (.upsertCompleted m job.constraints svc.version result) with
    | (.ok storedId, desk) => (.finish buildId storedId result fromSubtree, desk)
    | (.error e, desk) => (.spoil buildId e.message, desk)
  | .finish buildId storedId result fromSubtree =>
    match desk.call (.setCompleted m job.id) with
    | (.ok (), desk) => (.done (.ok (.completed storedId result.sums fromSubtree)), desk)
    | (.error e, desk) => (.spoil buildId e.message, desk)
  | .spoil buildId message =>
    match desk.call (.markFailed m buildId message) with
    | (.ok (), desk) => (.abandon message, desk)
    | (.error e, desk) => (.done (.error e), desk)
  | .abandon message =>
    match desk.call (.setFailed m job.id message) with
    | (.ok (), desk) => (.done (.ok (.failed message)), desk)
    | (.error e, desk) => (.done (.error e), desk)
  | .done answer => (.done answer, desk)

/-- Every call but the last brings the end nearer. -/
theorem rank_step_lt (m : Moment) (job : Job) (desk : Desk) (stage : Stage)
    (h : stage.answer? = none) : (svc.step m job desk stage).1.rank < stage.rank := by
  cases stage <;> simp only [step]
  case done answer => exact absurd h (Option.some_ne_none answer)
  all_goals split <;> simp [Stage.rank]

/-- Makes the remaining calls for a job, the first of them at the first of the given moments. -/
def run (moments : Nat → Moment) (job : Job) (desk : Desk) (stage : Stage) :
    Except StoreError Outcome × Desk :=
  match h : stage.answer? with
  | some answer => (answer, desk)
  | none =>
    let next := svc.step (moments 0) job desk stage
    run (fun i => moments (i + 1)) job next.2 next.1
termination_by stage.rank
decreasing_by exact svc.rank_step_lt _ _ _ _ h

/-- Processes a job. -/
def process (moments : Nat → Moment) (job : Job) (desk : Desk) :
    Except StoreError Outcome × Desk :=
  svc.run moments job desk .lookUp

/-- The most calls that processing a job takes. -/
def maxCalls : Nat := 9

end Service

end Gunsmith
