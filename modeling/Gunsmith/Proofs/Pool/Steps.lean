/-
  What can happen to a pool, and what it comes to.

  A pool acts, and others make calls on the queue meanwhile (`Pool.Event`): they may enter
  jobs at any time, and may claim jobs or move them on as well.  A ledger keeps what the
  pool has done with every single job: which jobs it claimed, which worker received which,
  and how each ended (`Pool.Ledger`).  `Pool.watch?` is one event with its entry in the
  ledger, and `Pool.after?` is a sequence of events.

  `Pool.Step` says once what each event needs and does.  It is all that the properties of
  pools rest on (`Pool.step_of_watch?`), and what every event keeps holds after any sequence
  of them (`Pool.after?_induction`).
-/
import Gunsmith.Pool
import Gunsmith.Proofs.Queue.Calls

namespace Gunsmith

namespace Poller

/-- The job that the poller holds. -/
def jobs : Poller → List Job
  | .holding job => [job]
  | _ => []

end Poller

namespace Worker

/-- The job that a worker has in hand, with the number of the worker. -/
def hand (i : Nat) : Worker → Option (Nat × Job)
  | .busy job _ => some (i, job)
  | _ => none

/-- The jobs that workers have in hand, each with the number of its worker. -/
def inHand (workers : List Worker) : List (Nat × Job) :=
  workers.zipIdx.filterMap fun entry => entry.1.hand entry.2

end Worker

namespace Pool

/-- The jobs that are being processed, each with the number of its worker. -/
def processing (pool : Pool) : List (Nat × Job) := Worker.inHand pool.workers

/-! ### Events and the ledger -/

/-- Something that happens: the pool acts, or somebody else makes a call on the queue. -/
inductive Event where
  | act (m : Moment) (action : Action)
  | call (call : QueueCall)

/-- What a pool has done so far, in order. -/
structure Ledger where
  /-- The jobs that were claimed. -/
  claimed : List Job
  /-- The jobs that were received from the channel, each with the number of its worker. -/
  handed : List (Nat × Job)
  /-- The jobs that were processed and counted, each with the number of its worker. -/
  ended : List (Nat × Handled)

namespace Ledger

/-- Nothing has been done. -/
def empty : Ledger := ⟨[], [], []⟩

/-- Enters what an action did, given the pool before and after it. -/
def enter (ledger : Ledger) (before : Pool) (action : Action) (after : Pool) : Ledger :=
  match action with
  | .claim => { ledger with claimed := ledger.claimed ++ after.poller.jobs }
  | .receive i =>
    { ledger with handed := ledger.handed ++ (before.channel.head?.map fun job => (i, job)).toList }
  | .count i =>
    match before.workers[i]? with
    | some (.busy job (.done answer)) =>
      { ledger with ended := ledger.ended ++ [(i, ⟨job, answer⟩)] }
    | _ => ledger
  | _ => ledger

end Ledger

variable (svc : Service) (capacity : Nat)

/-- The pool and its ledger after an event, if the event is possible. -/
def watch? (pool : Pool) (ledger : Ledger) : Event → Option (Pool × Ledger)
  | .act m action =>
    (pool.act? svc capacity m action).map fun after => (after, ledger.enter pool action after)
  | .call call =>
    let desk := { pool.desk with store := (call.run pool.desk.store).2 }
    some ({ pool with desk := desk }, ledger)

/-- The pool and its ledger after some events, if these are possible one after the other. -/
def after? : List Event → Pool → Ledger → Option (Pool × Ledger)
  | [], pool, ledger => some (pool, ledger)
  | event :: events, pool, ledger =>
    match watch? svc capacity pool ledger event with
    | none => none
    | some (pool, ledger) => after? events pool ledger

/-! ### What every event needs and does -/

/-- An event, and the pool and the ledger after it. -/
inductive Step (pool : Pool) (ledger : Ledger) : Event → Pool → Ledger → Prop
  | stop (m : Moment) : Step pool ledger (.act m .stop) { pool with stopping := true } ledger
  | look (m : Moment) (hpoller : pool.poller = .ready) (hstop : pool.stopping = false) :
    Step pool ledger (.act m .look) { pool with poller := .waiting } ledger
  | reserve (m : Moment) (hpoller : pool.poller = .waiting)
    (hroom : pool.channel.length < max 1 capacity) :
    Step pool ledger (.act m .reserve) { pool with poller := .reserved } ledger
  | claim (m : Moment) {job : Job} {desk : Desk} (hpoller : pool.poller = .reserved)
    (hclaim : pool.desk.call (.claim m) = (.ok (some job), desk)) :
    Step pool ledger (.act m .claim)
      { pool with desk := desk, poller := .holding job, claimed := pool.claimed + 1 }
      { ledger with claimed := ledger.claimed ++ [job] }
  | miss (m : Moment) {answer : Except StoreError (Option Job)} {desk : Desk}
    (hpoller : pool.poller = .reserved) (hclaim : pool.desk.call (.claim m) = (answer, desk))
    (hnone : ∀ job, answer ≠ .ok (some job)) :
    Step pool ledger (.act m .claim) { pool with desk := desk, poller := .vacant } ledger
  | send (m : Moment) {job : Job} (hpoller : pool.poller = .holding job) :
    Step pool ledger (.act m .send)
      { pool with poller := .ready, channel := pool.channel ++ [job] } ledger
  | release (m : Moment) (hpoller : pool.poller = .vacant) :
    Step pool ledger (.act m .release) { pool with poller := .resting } ledger
  | wake (m : Moment) (hpoller : pool.poller = .resting) (hstop : pool.stopping = false) :
    Step pool ledger (.act m .wake) { pool with poller := .ready } ledger
  | leave (m : Moment)
    (hpoller : pool.poller = .ready ∨ pool.poller = .waiting ∨ pool.poller = .resting)
    (hstop : pool.stopping = true) :
    Step pool ledger (.act m .leave) { pool with poller := .gone } ledger
  | receive (m : Moment) {i : Nat} {job : Job} {rest : List Job}
    (hworker : pool.workers[i]? = some .idle) (hchannel : pool.channel = job :: rest) :
    Step pool ledger (.act m (.receive i))
      { pool with channel := rest, workers := pool.workers.set i (.busy job .lookUp) }
      { ledger with handed := ledger.handed ++ [(i, job)] }
  | work (m : Moment) {i : Nat} {job : Job} {stage : Stage}
    (hworker : pool.workers[i]? = some (.busy job stage)) (hstage : stage.answer? = none) :
    Step pool ledger (.act m (.work i))
      { pool with
        desk := (svc.step m job pool.desk stage).2
        workers := pool.workers.set i (.busy job (svc.step m job pool.desk stage).1) } ledger
  | count (m : Moment) {i : Nat} {job : Job} {answer : Except StoreError Outcome}
    (hworker : pool.workers[i]? = some (.busy job (.done answer))) :
    Step pool ledger (.act m (.count i))
      { pool with
        workers := pool.workers.set i .idle
        completed := pool.completed + (countsAsCompleted answer).toNat
        failed := pool.failed + (!countsAsCompleted answer).toNat }
      { ledger with ended := ledger.ended ++ [(i, ⟨job, answer⟩)] }
  | dismiss (m : Moment) {i : Nat} (hworker : pool.workers[i]? = some .idle)
    (hpoller : pool.poller = .gone) (hchannel : pool.channel = []) :
    Step pool ledger (.act m (.dismiss i))
      { pool with workers := pool.workers.set i .gone } ledger
  | call (call : QueueCall) :
    Step pool ledger (.call call)
      { pool with desk := { pool.desk with store := (call.run pool.desk.store).2 } } ledger

variable {svc : Service} {capacity : Nat} {pool pool' : Pool} {ledger ledger' : Ledger}
  {event : Event}

/-- **Nothing else can happen.** -/
theorem step_of_watch? (h : watch? svc capacity pool ledger event = some (pool', ledger')) :
    Step svc capacity pool ledger event pool' ledger' := by
  cases event with
  | call call =>
    obtain ⟨rfl, rfl⟩ := Prod.mk.inj (Option.some.inj h)
    exact .call call
  | act m action =>
    rw [watch?, Option.map_eq_some_iff] at h
    obtain ⟨after, hact, heq⟩ := h
    obtain ⟨rfl, rfl⟩ := Prod.mk.inj heq
    cases action with
    | stop =>
      obtain rfl := Option.some.inj hact
      exact .stop m
    | look =>
      simp only [act?] at hact
      split at hact
      · split_ifs at hact with hstop
        obtain rfl := Option.some.inj hact
        exact .look m ‹_› (Bool.eq_false_iff.mpr hstop)
      · cases hact
    | reserve =>
      simp only [act?] at hact
      split at hact
      · split_ifs at hact with hroom
        obtain rfl := Option.some.inj hact
        exact .reserve m ‹_› hroom
      · cases hact
    | claim =>
      simp only [act?] at hact
      split at hact
      · split at hact
        · next hclaim =>
          obtain rfl := Option.some.inj hact
          exact .claim m ‹_› hclaim
        · next answer desk hnone hclaim =>
          obtain rfl := Option.some.inj hact
          show Step svc capacity pool ledger _ _ { ledger with claimed := ledger.claimed ++ [] }
          rw [List.append_nil]
          exact .miss m ‹_› hclaim hnone
      · cases hact
    | send =>
      simp only [act?] at hact
      split at hact
      · obtain rfl := Option.some.inj hact
        exact .send m ‹_›
      · cases hact
    | release =>
      simp only [act?] at hact
      split at hact
      · obtain rfl := Option.some.inj hact
        exact .release m ‹_›
      · cases hact
    | wake =>
      simp only [act?] at hact
      split at hact
      · split_ifs at hact with hstop
        obtain rfl := Option.some.inj hact
        exact .wake m ‹_› (Bool.eq_false_iff.mpr hstop)
      · cases hact
    | leave =>
      simp only [act?] at hact
      split at hact
      · split_ifs at hact with hstop
        obtain rfl := Option.some.inj hact
        exact .leave m (.inl ‹_›) hstop
      · split_ifs at hact with hstop
        obtain rfl := Option.some.inj hact
        exact .leave m (.inr (.inl ‹_›)) hstop
      · split_ifs at hact with hstop
        obtain rfl := Option.some.inj hact
        exact .leave m (.inr (.inr ‹_›)) hstop
      · cases hact
    | receive i =>
      simp only [act?] at hact
      split at hact
      · next hworker hchannel =>
        obtain rfl := Option.some.inj hact
        rw [Ledger.enter, hchannel]
        exact .receive m hworker hchannel
      · cases hact
    | work i =>
      simp only [act?] at hact
      split at hact
      · next hworker =>
        split at hact
        · cases hact
        · next hstage =>
          obtain rfl := Option.some.inj hact
          exact .work m hworker hstage
      · cases hact
    | count i =>
      simp only [act?] at hact
      split at hact
      · next job answer hworker =>
        rw [Ledger.enter, hworker]
        have hcount := @Step.count svc capacity pool ledger m i job answer hworker
        split_ifs at hact with hcompleted
        · obtain rfl := Option.some.inj hact
          rwa [hcompleted] at hcount
        · obtain rfl := Option.some.inj hact
          rwa [Bool.eq_false_iff.mpr hcompleted] at hcount
      · cases hact
    | dismiss i =>
      simp only [act?] at hact
      split at hact
      · next hworker hpoller hchannel =>
        obtain rfl := Option.some.inj hact
        exact .dismiss m hworker hpoller hchannel
      · cases hact

/-- What every event keeps holds after all of them. -/
theorem after?_induction {P : Pool → Ledger → Prop}
    (hstep : ∀ {pool ledger event pool' ledger'}, Step svc capacity pool ledger event pool' ledger' →
      P pool ledger → P pool' ledger') {events : List Event}
    (hrun : after? svc capacity events pool ledger = some (pool', ledger')) (h : P pool ledger) :
    P pool' ledger' := by
  induction events generalizing pool ledger with
  | nil =>
    obtain ⟨rfl, rfl⟩ := Prod.mk.inj (Option.some.inj hrun)
    exact h
  | cons event events ih =>
    rw [after?] at hrun
    split at hrun
    · cases hrun
    · next hwatch => exact ih hrun (hstep (step_of_watch? hwatch) h)

end Pool

end Gunsmith
