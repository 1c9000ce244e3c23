/-
  A pool neither loses nor repeats a job.

  Whatever a pool does, and whatever others do to the queue meanwhile, its accounts are in
  order at every moment (`Pool.Accounts`).  Every job that it claimed is in one place, from
  the claim to the count, and is handed to one worker once.  When the pool has shut down
  (`Pool.Settled`), every claimed job was handed on and ended, and it has ended in the queue
  as well, unless the processing itself failed.

  Where a job is follows from the flow alone (`Pool.Flows`).  That a job is claimed once, and
  that it has ended when its processing has, is a matter of the store, which tells it by the
  rows of the queue (`Pool.Marks`): no event lets a row go back.
-/
import Gunsmith.Proofs.Pool.Flow
import Gunsmith.Proofs.Service.Agreement
import Gunsmith.Proofs.Service.Jobs

namespace Gunsmith.Pool

variable {svc : Service} {capacity : Nat} {pool pool' : Pool} {ledger ledger' : Ledger}
  {event : Event}

/-! ### What the store tells -/

/-- Every event lets the jobs of the store advance at most. -/
theorem jobsAdvance_step (h : pool.desk.store.JobTable pool.desk.store.jobRows)
    (hstep : Step svc capacity pool ledger event pool' ledger') :
    pool.desk.store.JobsAdvance pool'.desk.store := by
  cases hstep with
  | claim _ _ hclaim => exact Desk.jobsAdvance_of_claim h hclaim
  | miss _ _ hclaim _ => exact Desk.jobsAdvance_of_claim h hclaim
  | work _ _ _ => exact Service.step_jobsAdvance h
  | call call => exact .of_run h call
  | _ => exact .refl h

/-- The rows of the queue bear out what the pool has done. -/
structure Marks (pool : Pool) (ledger : Ledger) : Prop where
  table : pool.desk.store.JobTable pool.desk.store.jobRows
  taken : ∀ job ∈ ledger.claimed, pool.desk.store.TakenJob job.id
  distinct : (ledger.claimed.map Job.id).Nodup
  done : ∀ job outcome, Worker.busy job (.done (.ok outcome)) ∈ pool.workers →
    pool.desk.store.EndedJob job.id
  ended : ∀ entry ∈ ledger.ended, ∀ outcome, entry.2.answer = .ok outcome →
    pool.desk.store.EndedJob entry.2.job.id

/-- A claim answers a job that the pool has not claimed before. -/
theorem Marks.claimed_step (h : Marks pool ledger)
    (hstep : Step svc capacity pool ledger event pool' ledger') :
    (∀ job ∈ ledger'.claimed, pool'.desk.store.TakenJob job.id) ∧
      (ledger'.claimed.map Job.id).Nodup := by
  have hadvance := jobsAdvance_step h.table hstep
  have htaken : ∀ job ∈ ledger.claimed, pool'.desk.store.TakenJob job.id :=
    fun job hjob => hadvance.taken (h.taken job hjob)
  cases hstep with
  | @claim m job desk hpoller hclaim =>
    obtain ⟨hnew, hnow⟩ := h.table.taken_of_claim (Desk.call_store hclaim)
    constructor
    · intro other hother
      rcases List.mem_append.mp hother with hother | hother
      · exact htaken other hother
      · rwa [List.mem_singleton.mp hother]
    · rw [List.map_append, List.map_singleton, List.nodup_append]
      refine ⟨h.distinct, List.nodup_singleton _, ?_⟩
      rintro _ hid _ hid' rfl
      obtain ⟨other, hother, heq⟩ := List.mem_map.mp hid
      exact hnew (List.mem_singleton.mp hid' ▸ heq ▸ h.taken other hother)
  | _ => exact ⟨htaken, h.distinct⟩

/-- A worker that is done with an outcome has ended its job. -/
theorem Marks.done_step (h : Marks pool ledger)
    (hstep : Step svc capacity pool ledger event pool' ledger') (job : Job) (outcome : Outcome)
    (hdone : Worker.busy job (.done (.ok outcome)) ∈ pool'.workers) :
    pool'.desk.store.EndedJob job.id := by
  have hadvance := jobsAdvance_step h.table hstep
  cases hstep with
  | receive _ _ _ =>
    rcases List.mem_or_eq_of_mem_set hdone with hold | hnew
    · exact hadvance.ended (h.done job outcome hold)
    · cases hnew
  | work _ _ hstage =>
    rcases List.mem_or_eq_of_mem_set hdone with hold | hnew
    · exact hadvance.ended (h.done job outcome hold)
    · obtain ⟨rfl, hnext⟩ := Worker.busy.inj hnew
      exact Service.step_ended h.table hstage hnext.symm
  | count _ _ =>
    rcases List.mem_or_eq_of_mem_set hdone with hold | hnew
    · exact hadvance.ended (h.done job outcome hold)
    · cases hnew
  | dismiss _ _ _ _ =>
    rcases List.mem_or_eq_of_mem_set hdone with hold | hnew
    · exact hadvance.ended (h.done job outcome hold)
    · cases hnew
  | _ => exact hadvance.ended (h.done job outcome hdone)

/-- What is counted as processed with an outcome has ended. -/
theorem Marks.ended_step (h : Marks pool ledger)
    (hstep : Step svc capacity pool ledger event pool' ledger') {entry : Nat × Handled}
    (hentry : entry ∈ ledger'.ended) (outcome : Outcome) (hanswer : entry.2.answer = .ok outcome) :
    pool'.desk.store.EndedJob entry.2.job.id := by
  have hadvance := jobsAdvance_step h.table hstep
  cases hstep with
  | count _ hworker =>
    rcases List.mem_append.mp hentry with hold | hnew
    · exact hadvance.ended (h.ended entry hold outcome hanswer)
    · obtain rfl := List.mem_singleton.mp hnew
      obtain rfl := hanswer
      exact hadvance.ended (h.done _ outcome (List.mem_of_getElem? hworker))
  | _ => exact hadvance.ended (h.ended entry hentry outcome hanswer)

/-- **Every event keeps the marks.** -/
theorem Marks.step (h : Marks pool ledger)
    (hstep : Step svc capacity pool ledger event pool' ledger') : Marks pool' ledger' where
  table := (jobsAdvance_step h.table hstep).table
  taken := (h.claimed_step hstep).1
  distinct := (h.claimed_step hstep).2
  done := h.done_step hstep
  ended _ hentry := h.ended_step hstep hentry

theorem marks_start {desk : Desk} {rows : List JobRow} (hjobs : desk.store.JobTable rows)
    (workers : Nat) : Marks (start workers desk) .empty where
  table := hjobs.self
  taken _ hjob := absurd hjob List.not_mem_nil
  distinct := List.nodup_nil
  done _ _ hdone := absurd (List.eq_of_mem_replicate hdone) nofun
  ended _ hentry := absurd hentry List.not_mem_nil

/-! ### The accounts -/

/-- What is known about a pool that has shut down. -/
structure Settled (pool : Pool) (ledger : Ledger) : Prop where
  channel : pool.channel = []
  idle : pool.processing = []
  counted : pool.claimed = pool.completed + pool.failed
  /-- Every claimed job was handed to a worker, in the order of the claims. -/
  handed : ledger.handed.map Prod.snd = ledger.claimed
  /-- Each was ended by the worker that received it. -/
  ended : (ledger.ended.map fun entry => (entry.1, entry.2.job)).Perm ledger.handed
  /-- A claimed job has ended in the queue, unless the processing itself failed. -/
  terminal : ∀ job ∈ ledger.claimed, ∃ worker answer, (worker, ⟨job, answer⟩) ∈ ledger.ended ∧
    ((∃ e, answer = .error e) ∨ pool.desk.store.EndedJob job.id)

/-- What is known about a pool at every moment. -/
structure Accounts (capacity : Nat) (pool : Pool) (ledger : Ledger) : Prop where
  /-- The counters tell how many jobs were claimed, and how many were processed and with what
  success. -/
  counters : pool.claimed = ledger.claimed.length ∧
    (pool.completed = ledger.ended.countP fun entry => countsAsCompleted entry.2.answer) ∧
    pool.failed = ledger.ended.countP fun entry => !countsAsCompleted entry.2.answer
  /-- Every claimed job is with the poller, in the channel, being processed, or counted. -/
  balance : pool.claimed = pool.poller.jobs.length + pool.channel.length + pool.processing.length +
    pool.completed + pool.failed
  /-- The channel and the places that the poller holds are within the capacity. -/
  room : pool.channel.length + pool.poller.places ≤ max 1 capacity
  /-- No job is claimed twice. -/
  distinct : (ledger.claimed.map Job.id).Nodup
  /-- Jobs are handed to workers in the order in which they were claimed; those that were not are in
  the channel, or with the poller. -/
  order : ledger.claimed = ledger.handed.map Prod.snd ++ pool.channel ++ pool.poller.jobs
  /-- No job is handed to a worker twice, be it to the same worker or another one. -/
  once : (ledger.handed.map fun entry => entry.2.id).Nodup
  /-- What was handed to a worker is being processed by it, or was ended by it. -/
  hands : ledger.handed.Perm
    (pool.processing ++ ledger.ended.map fun entry => (entry.1, entry.2.job))
  /-- What was processed with an outcome has ended in the queue. -/
  ended : ∀ entry ∈ ledger.ended, ∀ outcome, entry.2.answer = .ok outcome →
    pool.desk.store.EndedJob entry.2.job.id
  /-- What is known once the pool has shut down. -/
  settled : pool.isDown = true → Settled pool ledger

/-- A pool without workers in which the jobs flow has nothing left. -/
theorem settled_of_isDown (hflows : Flows capacity pool ledger) (hmarks : Marks pool ledger)
    (hstaff : 0 < pool.workers.length) (hdown : pool.isDown = true) : Settled pool ledger := by
  obtain ⟨hpoller, hworkers⟩ := isDown_iff.mp hdown
  obtain ⟨worker, hworker⟩ := List.exists_mem_of_length_pos hstaff
  obtain ⟨-, hchannel⟩ := hflows.closed (hworkers worker hworker ▸ hworker)
  have hidle : pool.processing = [] := by
    refine Worker.inHand_eq_nil fun worker hworker i => ?_
    rw [hworkers worker hworker]
    rfl
  have horder := hflows.order
  have hhands := hflows.hands
  have hbalance := hflows.balance
  rw [hpoller, hchannel, List.append_nil, show Poller.gone.jobs = [] from rfl,
    List.append_nil] at horder
  rw [hidle, List.nil_append] at hhands
  rw [hpoller, hchannel, hidle] at hbalance
  refine ⟨hchannel, hidle, ?_, horder.symm, hhands.symm, fun job hjob => ?_⟩
  · rw [hbalance]
    simp [Poller.jobs]
  · -- The job was handed on, so it was ended, and with the answer in that entry.
    rw [horder, List.mem_map] at hjob
    obtain ⟨⟨i, _⟩, hhanded, rfl⟩ := hjob
    obtain ⟨⟨j, job, answer⟩, hended, heq⟩ := List.mem_map.mp (hhands.mem_iff.mp hhanded)
    obtain ⟨rfl, rfl⟩ := Prod.mk.inj heq
    refine ⟨j, answer, hended, ?_⟩
    cases answer with
    | error e => exact Or.inl ⟨e, rfl⟩
    | ok outcome => exact Or.inr (hmarks.ended _ hended outcome rfl)

/-- **The accounts of a pool are in order** after any events: a pool with one or more workers and a
channel for one or more jobs, started on any queue, neither loses nor repeats a job. -/
theorem accounts {workers : Nat} {desk : Desk} {rows : List JobRow} {events : List Event}
    (hjobs : desk.store.JobTable rows)
    (hrun : after? svc capacity events (start workers desk) .empty = some (pool, ledger)) :
    Accounts capacity pool ledger := by
  have hstart : 0 < (start workers desk).workers.length := by
    show 0 < (List.replicate (max 1 workers) Worker.idle).length
    rw [List.length_replicate]
    omega
  -- The invariant of the run: the flow, the marks, and that there are workers at all.
  obtain ⟨hflows, hmarks, hstaff⟩ := after?_induction
    (P := fun pool ledger =>
      Flows capacity pool ledger ∧ Marks pool ledger ∧ 0 < pool.workers.length)
    (fun hstep ⟨hflows, hmarks, hstaff⟩ =>
      ⟨hflows.step hstep, hmarks.step hstep, (length_workers_step hstep).symm ▸ hstaff⟩)
    hrun ⟨flows_start capacity workers desk, marks_start hjobs workers, hstart⟩
  have honce : (ledger.handed.map fun entry => entry.2.id).Nodup := by
    have hdistinct := hmarks.distinct
    rw [hflows.order, List.append_assoc, List.map_append, List.map_map] at hdistinct
    exact (List.nodup_append.mp hdistinct).1
  exact {
    counters := ⟨hflows.claimed, hflows.completed, hflows.failed⟩
    balance := hflows.balance
    room := hflows.room
    distinct := hmarks.distinct
    order := hflows.order
    once := honce
    hands := hflows.hands
    ended := hmarks.ended
    settled := settled_of_isDown hflows hmarks hstaff }

/-- A service whose source does not know the weapon of the sample. -/
def sampleService : Service := (Service.slotless "1").withFaults [⟨.weapon, "w", .noRows⟩]

/-- Two workers on a queue with one job. -/
def samplePool : Pool := start 2 ⟨sampleStore [sampleJob "a" false], .empty, .create .memory "1"⟩

/-- An urgent job is entered just before the poller claims, and the pool is told to stop before the
poller has sent what it claimed. -/
def sampleEvents : List Event :=
  let act : Action → Event := .act ⟨"2024-01-02", "b"⟩
  [act .look, act .reserve, .call (.enqueue ⟨"2024-01-02", "b"⟩ "w" .recoil sampleConstraints 7),
    act .claim, act .stop, act .send, act .leave, act (.receive 1), act (.dismiss 0)] ++
    List.replicate 6 (act (.work 1)) ++ [act (.count 1), act (.dismiss 1)]

theorem accounts_sample :
    samplePool.desk.store.JobTable [(sampleJob "a" false).row] ∧
      ∃ pool ledger, after? sampleService 1 sampleEvents samplePool .empty = some (pool, ledger) ∧
        pool.isDown = true ∧ ledger.handed.map (fun entry => (entry.1, entry.2.id)) = [(1, "b")] ∧
        pool.claimed = 1 ∧ pool.failed = 1 ∧ Accounts 1 pool ledger := by
  have hjobs : samplePool.desk.store.JobTable [(sampleJob "a" false).row] :=
    ⟨rfl, List.nodup_singleton _⟩
  have hfacts : (after? sampleService 1 sampleEvents samplePool .empty).map (fun (pool, ledger) =>
      (pool.isDown, ledger.handed.map fun entry => (entry.1, entry.2.id), pool.claimed,
        pool.failed)) = some (true, [(1, "b")], 1, 1) := by decide +kernel
  obtain ⟨⟨pool, ledger⟩, hrun, heq⟩ := Option.map_eq_some_iff.mp hfacts
  obtain ⟨hdown, hhanded, hclaimed, hfailed⟩ : _ ∧ _ ∧ _ ∧ _ := by
    simpa only [Prod.mk.injEq] using heq
  exact ⟨hjobs, pool, ledger, hrun, hdown, hhanded, hclaimed, hfailed, accounts hjobs hrun⟩

end Gunsmith.Pool
