/-
  How jobs flow through a pool.

  A claimed job is with the poller, then in the channel, then with the worker that received
  it, until that worker has counted it.  Nothing is dropped on the way and nothing is done
  twice.  `Pool.Flows` says so about a pool and its ledger, list by list:

    * the claimed jobs are, in order, those that were handed on, those in the channel, and
      the one that the poller holds;
    * what was handed on is in the hand of the worker that received it, or was ended by it;
    * the channel and the places that the poller holds are within the capacity;
    * a worker leaves only after the poller has left and the channel is empty.

  Each of these is kept by every event (`Pool.Flows.step`) and holds in the beginning
  (`Pool.flows_start`).
-/
import Gunsmith.Proofs.Pool.Steps

namespace Gunsmith

open scoped List

/-! ### Workers -/

namespace Worker

/-- Where an entry is replaced, what is read off the list loses what is read off the old entry and
gains what is read off the new one. -/
theorem perm_filterMap_zipIdx_set {α β : Type} (f : α × Nat → Option β) {l : List α} {i : Nat}
    {a : α} (h : l[i]? = some a) (b : α) (k : Nat) :
    (((l.set i b).zipIdx k).filterMap f ++ (f (a, k + i)).toList).Perm
      ((l.zipIdx k).filterMap f ++ (f (b, k + i)).toList) := by
  have hcons : ∀ (x : α × Nat) xs, (x :: xs).filterMap f = (f x).toList ++ xs.filterMap f := by
    intro x xs
    rw [List.filterMap_cons]
    cases f x <;> rfl
  induction l generalizing i k with
  | nil => cases h
  | cons x l ih =>
    cases i with
    | zero =>
      obtain rfl := Option.some.inj h
      rw [List.set_cons_zero, List.zipIdx_cons, List.zipIdx_cons, hcons, hcons, Nat.add_zero,
        List.append_assoc, List.append_assoc]
      exact (List.perm_append_comm.append_left _).trans
        (List.perm_append_comm.trans (.of_eq (List.append_assoc ..)))
    | succ i =>
      rw [List.set_cons_succ, List.zipIdx_cons, List.zipIdx_cons, hcons, hcons, List.append_assoc,
        List.append_assoc, show k + (i + 1) = k + 1 + i by omega]
      exact (ih h (k + 1)).append_left _

variable {workers : List Worker} {i : Nat} {worker : Worker}

/-- Where a worker is replaced, what is in hand changes with what that worker has in hand. -/
theorem inHand_set (h : workers[i]? = some worker) (other : Worker) :
    (inHand (workers.set i other) ++ (worker.hand i).toList).Perm
      (inHand workers ++ (other.hand i).toList) := by
  have hperm := perm_filterMap_zipIdx_set (fun entry : Worker × Nat => entry.1.hand entry.2) h
    other 0
  rwa [Nat.zero_add] at hperm

/-- Nothing is in hand if nobody has anything in hand. -/
theorem inHand_eq_nil (h : ∀ worker ∈ workers, ∀ i, worker.hand i = none) : inHand workers = [] :=
  List.filterMap_eq_nil_iff.mpr fun entry hentry =>
    h entry.1 (List.fst_mem_of_mem_zipIdx hentry) entry.2

end Worker

namespace Pool

/-! ### The flow of jobs -/

/-- A pool and its ledger agree about where every job is. -/
structure Flows (capacity : Nat) (pool : Pool) (ledger : Ledger) : Prop where
  claimed : pool.claimed = ledger.claimed.length
  completed : pool.completed = ledger.ended.countP fun entry => countsAsCompleted entry.2.answer
  failed : pool.failed = ledger.ended.countP fun entry => !countsAsCompleted entry.2.answer
  room : pool.channel.length + pool.poller.places ≤ max 1 capacity
  order : ledger.claimed = ledger.handed.map Prod.snd ++ pool.channel ++ pool.poller.jobs
  hands : ledger.handed.Perm
    (pool.processing ++ ledger.ended.map fun entry => (entry.1, entry.2.job))
  closed : Worker.gone ∈ pool.workers → pool.poller = .gone ∧ pool.channel = []

variable {svc : Service} {capacity : Nat} {pool pool' : Pool} {ledger ledger' : Ledger}
  {event : Event}

/-- The counters count what is entered in the ledger. -/
theorem Flows.counts_step (h : Flows capacity pool ledger)
    (hstep : Step svc capacity pool ledger event pool' ledger') :
    pool'.claimed = ledger'.claimed.length ∧
      (pool'.completed = ledger'.ended.countP fun entry => countsAsCompleted entry.2.answer) ∧
      pool'.failed = ledger'.ended.countP fun entry => !countsAsCompleted entry.2.answer := by
  obtain ⟨hclaimed, hcompleted, hfailed, -, -, -, -⟩ := h
  cases hstep with
  | claim =>
    refine ⟨?_, hcompleted, hfailed⟩
    rw [List.length_append, List.length_singleton, ← hclaimed]
  | @count m i job answer =>
    refine ⟨hclaimed, ?_, ?_⟩
    · rw [List.countP_append, List.countP_singleton, ← hcompleted]
      cases countsAsCompleted answer <;> rfl
    · rw [List.countP_append, List.countP_singleton, ← hfailed]
      cases countsAsCompleted answer <;> rfl
  | _ => exact ⟨hclaimed, hcompleted, hfailed⟩

/-- A place is reserved only where there is room, and a job is sent to a place that is held. -/
theorem Flows.room_step (h : Flows capacity pool ledger)
    (hstep : Step svc capacity pool ledger event pool' ledger') :
    pool'.channel.length + pool'.poller.places ≤ max 1 capacity := by
  have hroom := h.room
  cases hstep with
  | reserve _ _ hfree => exact hfree
  | claim _ hpoller _ =>
    rw [hpoller] at hroom
    exact hroom
  | miss _ hpoller _ _ =>
    rw [hpoller] at hroom
    exact hroom
  | send _ hpoller =>
    rw [hpoller] at hroom
    rw [List.length_append]
    exact hroom
  | receive _ _ hchannel =>
    rw [hchannel, List.length_cons] at hroom
    exact (Nat.add_le_add_right (Nat.le_succ _) _).trans hroom
  | look => exact (Nat.le_add_right _ _).trans hroom
  | release => exact (Nat.le_add_right _ _).trans hroom
  | wake => exact (Nat.le_add_right _ _).trans hroom
  | leave => exact (Nat.le_add_right _ _).trans hroom
  | _ => exact hroom

/-- Jobs are handed on in the order in which they were claimed. -/
theorem Flows.order_step (h : Flows capacity pool ledger)
    (hstep : Step svc capacity pool ledger event pool' ledger') :
    ledger'.claimed = ledger'.handed.map Prod.snd ++ pool'.channel ++ pool'.poller.jobs := by
  have horder := h.order
  cases hstep with
  | claim _ hpoller _ =>
    rw [hpoller, Poller.jobs, List.append_nil] at horder
    · rw [horder]
      rfl
    · exact nofun
  | send _ hpoller =>
    rw [hpoller] at horder
    rw [horder, ← List.append_assoc]
    exact (List.append_nil _).symm
  | receive _ _ hchannel =>
    rw [horder, hchannel, List.map_append, List.map_singleton, List.append_assoc (_ ++ _),
      List.append_assoc, List.append_assoc]
    rfl
  | look _ hpoller _ => rwa [hpoller] at horder
  | reserve _ hpoller _ => rwa [hpoller] at horder
  | miss _ hpoller _ _ => rwa [hpoller] at horder
  | release _ hpoller => rwa [hpoller] at horder
  | wake _ hpoller _ => rwa [hpoller] at horder
  | leave _ hpoller _ => rcases hpoller with hpoller | hpoller | hpoller <;> rwa [hpoller] at horder
  | _ => exact horder

/-- A job that is received is in hand until it is ended. -/
theorem Flows.hands_step (h : Flows capacity pool ledger)
    (hstep : Step svc capacity pool ledger event pool' ledger') :
    ledger'.handed.Perm
      (pool'.processing ++ ledger'.ended.map fun entry => (entry.1, entry.2.job)) := by
  have hhands := h.hands
  let ended := ledger.ended.map fun entry => (entry.1, entry.2.job)
  cases hstep with
  | @receive m i job rest hworker hchannel =>
    have hset : (Worker.inHand (pool.workers.set i (.busy job .lookUp))).Perm
        (pool.processing ++ [(i, job)]) := by
      simpa only [processing, Worker.hand, Option.toList, List.append_nil] using
        Worker.inHand_set hworker (.busy job .lookUp)
    calc ledger.handed ++ [(i, job)]
      _ ~ pool.processing ++ ended ++ [(i, job)] := hhands.append_right _
      _ ~ pool.processing ++ [(i, job)] ++ ended := by
        rw [List.append_assoc, List.append_assoc]
        exact List.perm_append_comm.append_left _
      _ ~ _ := hset.symm.append_right _
  | @work m i job stage hworker hstage =>
    have hset := Worker.inHand_set hworker (.busy job (svc.step m job pool.desk stage).1)
    exact hhands.trans (((List.perm_append_right_iff _).mp hset).symm.append_right _)
  | @count m i job answer hworker =>
    have hset : pool.processing.Perm
        (Worker.inHand (pool.workers.set i .idle) ++ [(i, job)]) := by
      simpa only [processing, Worker.hand, Option.toList, List.append_nil] using
        (Worker.inHand_set hworker .idle).symm
    calc ledger.handed
      _ ~ pool.processing ++ ended := hhands
      _ ~ Worker.inHand (pool.workers.set i .idle) ++ [(i, job)] ++ ended := hset.append_right _
      _ ~ Worker.inHand (pool.workers.set i .idle) ++ (ended ++ [(i, job)]) := by
        rw [List.append_assoc]
        exact List.perm_append_comm.append_left _
      _ = _ := by
        rw [List.map_append]
        rfl
  | @dismiss m i hworker =>
    have hset : pool.processing.Perm (Worker.inHand (pool.workers.set i .gone)) := by
      simpa only [processing, Worker.hand, Option.toList, List.append_nil] using
        (Worker.inHand_set hworker .gone).symm
    exact hhands.trans (hset.append_right _)
  | _ => exact hhands

/-- While the poller is there, so are the workers. -/
theorem Flows.gone_not_mem (h : Flows capacity pool ledger) (hpoller : pool.poller ≠ .gone) :
    Worker.gone ∉ pool.workers := fun hgone => hpoller (h.closed hgone).1

/-- A worker leaves only after the poller has left and the channel is empty. -/
theorem Flows.closed_step (h : Flows capacity pool ledger)
    (hstep : Step svc capacity pool ledger event pool' ledger')
    (hgone : Worker.gone ∈ pool'.workers) : pool'.poller = .gone ∧ pool'.channel = [] := by
  cases hstep with
  | stop => exact h.closed hgone
  | call => exact h.closed hgone
  | look _ hpoller _ => exact absurd hgone (h.gone_not_mem (hpoller ▸ nofun))
  | reserve _ hpoller _ => exact absurd hgone (h.gone_not_mem (hpoller ▸ nofun))
  | claim _ hpoller _ => exact absurd hgone (h.gone_not_mem (hpoller ▸ nofun))
  | miss _ hpoller _ _ => exact absurd hgone (h.gone_not_mem (hpoller ▸ nofun))
  | send _ hpoller => exact absurd hgone (h.gone_not_mem (hpoller ▸ nofun))
  | release _ hpoller => exact absurd hgone (h.gone_not_mem (hpoller ▸ nofun))
  | wake _ hpoller _ => exact absurd hgone (h.gone_not_mem (hpoller ▸ nofun))
  | leave _ hpoller _ =>
    refine absurd hgone (h.gone_not_mem fun heq => ?_)
    rw [heq] at hpoller
    rcases hpoller with hpoller | hpoller | hpoller <;> cases hpoller
  | receive _ _ hchannel =>
    rcases List.mem_or_eq_of_mem_set hgone with hgone | hgone
    · exact absurd (h.closed hgone).2 (hchannel ▸ nofun)
    · cases hgone
  | work _ _ _ =>
    rcases List.mem_or_eq_of_mem_set hgone with hgone | hgone
    · exact h.closed hgone
    · cases hgone
  | count _ _ =>
    rcases List.mem_or_eq_of_mem_set hgone with hgone | hgone
    · exact h.closed hgone
    · cases hgone
  | dismiss _ _ hpoller hchannel => exact ⟨hpoller, hchannel⟩

/-- **Every event keeps the flow.** -/
theorem Flows.step (h : Flows capacity pool ledger)
    (hstep : Step svc capacity pool ledger event pool' ledger') : Flows capacity pool' ledger' where
  claimed := (h.counts_step hstep).1
  completed := (h.counts_step hstep).2.1
  failed := (h.counts_step hstep).2.2
  room := h.room_step hstep
  order := h.order_step hstep
  hands := h.hands_step hstep
  closed := h.closed_step hstep

/-- In the beginning there is nothing. -/
theorem flows_start (capacity workers : Nat) (desk : Desk) :
    Flows capacity (start workers desk) .empty where
  claimed := rfl
  completed := rfl
  failed := rfl
  room := Nat.zero_le _
  order := rfl
  hands := by
    have hnone : (start workers desk).processing = [] :=
      Worker.inHand_eq_nil fun worker hworker i => by
        rw [List.eq_of_mem_replicate hworker]
        rfl
    rw [hnone]
    exact .refl _
  closed hgone := absurd (List.eq_of_mem_replicate hgone) nofun

/-- The number of workers stays. -/
theorem length_workers_step (hstep : Step svc capacity pool ledger event pool' ledger') :
    pool'.workers.length = pool.workers.length := by
  cases hstep with
  | receive => exact List.length_set
  | work => exact List.length_set
  | count => exact List.length_set
  | dismiss => exact List.length_set
  | _ => rfl

/-! ### What follows -/

/-- **The balance**: every claimed job is with the poller, in the channel, being processed, or
counted. -/
theorem Flows.balance (h : Flows capacity pool ledger) :
    pool.claimed = pool.poller.jobs.length + pool.channel.length + pool.processing.length +
      pool.completed + pool.failed := by
  have horder := congrArg List.length h.order
  have hhands := h.hands.length_eq
  have hended := ledger.ended.length_eq_countP_add_countP
    fun entry => countsAsCompleted entry.2.answer
  rw [List.length_append, List.length_append, List.length_map] at horder
  rw [List.length_append, List.length_map] at hhands
  rw [h.claimed, h.completed, h.failed, horder, hhands, hended]
  simp only [Bool.not_eq_true, Bool.decide_eq_false]
  omega

/-- A pool is down if the poller and all workers are gone. -/
theorem isDown_iff : pool.isDown = true ↔
    pool.poller = .gone ∧ ∀ worker ∈ pool.workers, worker = .gone := by
  rw [isDown, Bool.and_eq_true]
  refine and_congr ?_ ?_
  · cases pool.poller <;> simp
  · rw [List.all_eq_true]
    refine forall₂_congr fun worker _ => ?_
    cases worker <;> simp

end Pool

end Gunsmith
