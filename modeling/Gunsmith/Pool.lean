/-
  A pool of workers behind one poller.

  The poller claims jobs and hands them on through a channel that holds a bounded number
  of jobs; it reserves a place in the channel before it claims, so that a claimed job
  can always be handed on.  When there is nothing to claim it gives the place back and
  rests.  Workers take jobs from the channel and process them, call by call.

  A pool may be told to stop at any time.  The poller looks for that before it waits for a
  place, while it waits for one, and while it rests; a place that it has got by then is
  still used for one claim.  The workers leave once the poller is gone and the channel is
  empty.

  The pool is a transition system: `Pool.act?` says which action is possible when, and
  what it does.  Any order of possible actions may happen.  `Pool.settle` picks one such
  order, in which every job is finished before the next one is claimed.
-/
import Gunsmith.Service

namespace Gunsmith

/-! ### Draining the queue -/

/-- A job that was processed, and how that ended. -/
structure Handled where
  job : Job
  answer : Except StoreError Outcome

/-- The number of waiting jobs. -/
def Desk.waiting (desk : Desk) : Nat :=
  (JobRow.waiting (desk.store.jobs.getD [])).length

/-- Claims and processes jobs one after the other, at most as many as given, until there is none or
a claim fails. -/
def Service.drainUpTo (svc : Service) : Nat → (Nat → Moment) → Desk →
    Except StoreError (List Handled) × Desk
  | 0, _, desk => (.ok [], desk)
  | n + 1, moments, desk =>
    match desk.call (.claim (moments 0)) with
    | (.error e, desk) => (.error e, desk)
    | (.ok none, desk) => (.ok [], desk)
    | (.ok (some job), desk) =>
      let (answer, desk) := svc.process (fun i => moments (i + 1)) job desk
      let (rest, desk) :=
        drainUpTo svc n (fun i => moments (i + 1 + Service.maxCalls)) desk
      (rest.map (⟨job, answer⟩ :: ·), desk)

/-- Claims and processes jobs until nothing is waiting. -/
def Service.drain (svc : Service) (moments : Nat → Moment) (desk : Desk) :
    Except StoreError (List Handled) × Desk :=
  svc.drainUpTo (desk.waiting + 1) moments desk

/-! ### The pool -/

/-- What the poller is doing. -/
inductive Poller where
  /-- About to look whether the pool is told to stop. -/
  | ready
  /-- Waiting for a place in the channel, or for the pool to be told to stop. -/
  | waiting
  /-- Holding a place, about to claim. -/
  | reserved
  /-- Holding a place and a claimed job. -/
  | holding (job : Job)
  /-- Holding a place for nothing: there was nothing to claim, or the claim failed. -/
  | vacant
  /-- Resting, without a place. -/
  | resting
  /-- Gone: the channel is closed. -/
  | gone

/-- What a worker is doing. -/
inductive Worker where
  /-- Waiting for a job. -/
  | idle
  /-- Processing a job, with the given call next. -/
  | busy (job : Job) (stage : Stage)
  /-- Gone. -/
  | gone

/-- A pool at work. -/
structure Pool where
  desk : Desk
  poller : Poller
  channel : List Job
  workers : List Worker
  claimed : Nat
  completed : Nat
  failed : Nat
  stopping : Bool

/-- What can happen in a pool. -/
inductive Action where
  | stop
  | look
  | reserve
  | claim
  | send
  | release
  | wake
  | leave
  | receive (worker : Nat)
  | work (worker : Nat)
  | count (worker : Nat)
  | dismiss (worker : Nat)
deriving DecidableEq

namespace Poller

/-- The number of places in the channel that the poller holds. -/
def places : Poller → Nat
  | .reserved => 1
  | .holding _ => 1
  | .vacant => 1
  | _ => 0

end Poller

/-- The processing ended without a recorded failure. -/
def countsAsCompleted : Except StoreError Outcome → Bool
  | .ok (.failed _) => false
  | .ok _ => true
  | .error _ => false

namespace Pool

/-- A pool with at least one worker, before anything has happened. -/
def start (workers : Nat) (desk : Desk) : Pool where
  desk := desk
  poller := .ready
  channel := []
  workers := List.replicate (max 1 workers) .idle
  claimed := 0
  completed := 0
  failed := 0
  stopping := false

variable (svc : Service) (capacity : Nat)

/-- The pool after an action, if the action is possible. -/
def act? (m : Moment) (pool : Pool) : Action → Option Pool
  | .stop => some { pool with stopping := true }
  | .look =>
    match pool.poller with
    | .ready => if pool.stopping then none else some { pool with poller := .waiting }
    | _ => none
  | .reserve =>
    match pool.poller with
    | .waiting =>
      if pool.channel.length < max 1 capacity then some { pool with poller := .reserved } else none
    | _ => none
  | .claim =>
    match pool.poller with
    | .reserved =>
      match pool.desk.call (.claim m) with
      | (.ok (some job), desk) =>
        some { pool with desk := desk, poller := .holding job, claimed := pool.claimed + 1 }
      | (_, desk) => some { pool with desk := desk, poller := .vacant }
    | _ => none
  | .send =>
    match pool.poller with
    | .holding job => some { pool with poller := .ready, channel := pool.channel ++ [job] }
    | _ => none
  | .release =>
    match pool.poller with
    | .vacant => some { pool with poller := .resting }
    | _ => none
  | .wake =>
    match pool.poller with
    | .resting => if pool.stopping then none else some { pool with poller := .ready }
    | _ => none
  | .leave =>
    match pool.poller with
    | .ready => if pool.stopping then some { pool with poller := .gone } else none
    | .waiting => if pool.stopping then some { pool with poller := .gone } else none
    | .resting => if pool.stopping then some { pool with poller := .gone } else none
    | _ => none
  | .receive i =>
    match pool.workers[i]?, pool.channel with
    | some .idle, job :: rest =>
      some { pool with channel := rest, workers := pool.workers.set i (.busy job .lookUp) }
    | _, _ => none
  | .work i =>
    match pool.workers[i]? with
    | some (.busy job stage) =>
      match stage.answer? with
      | some _ => none
      | none =>
        let (stage, desk) := svc.step m job pool.desk stage
        some { pool with desk := desk, workers := pool.workers.set i (.busy job stage) }
    | _ => none
  | .count i =>
    match pool.workers[i]? with
    | some (.busy _ (.done answer)) =>
      let pool := { pool with workers := pool.workers.set i .idle }
      if countsAsCompleted answer then some { pool with completed := pool.completed + 1 }
      else some { pool with failed := pool.failed + 1 }
    | _ => none
  | .dismiss i =>
    match pool.workers[i]?, pool.poller, pool.channel with
    | some .idle, .gone, [] => some { pool with workers := pool.workers.set i .gone }
    | _, _, _ => none

/-- The pool has shut down: the poller and all workers are gone. -/
def isDown (pool : Pool) : Bool :=
  (match pool.poller with
    | .gone => true
    | _ => false) &&
  pool.workers.all fun w => match w with
    | .gone => true
    | _ => false

/-- The next action in the order in which every job is finished before another one is claimed; none
when the poller has found nothing to claim. -/
def nextAction (pool : Pool) : Option Action :=
  match pool.workers.head?, pool.channel, pool.poller with
  | some (.busy _ (.done _)), _, _ => some (.count 0)
  | some (.busy _ _), _, _ => some (.work 0)
  | _, _ :: _, _ => some (.receive 0)
  | _, [], .holding _ => some .send
  | _, [], .reserved => some .claim
  | _, [], .vacant => some .release
  | _, [], .ready => some .look
  | _, [], .waiting => some .reserve
  | _, [], _ => none

/-- Takes at most the given number of next actions, each at its own moment. -/
def settleUpTo : Nat → (Nat → Moment) → Pool → Pool
  | 0, _, pool => pool
  | n + 1, moments, pool =>
    match pool.nextAction with
    | none => pool
    | some action =>
      match pool.act? svc capacity (moments 0) action with
      | some pool => settleUpTo n (fun i => moments (i + 1)) pool
      | none => pool

/-- The most actions that one job takes, and as many to find that there is none. -/
def actionsPerJob : Nat := Service.maxCalls + 6

/-- Lets the pool work until there is nothing to claim. -/
def settle (moments : Nat → Moment) (pool : Pool) : Pool :=
  settleUpTo svc capacity (actionsPerJob * (pool.desk.waiting + 1)) moments pool

end Pool

end Gunsmith
