/-
  A pool that is told to stop shuts down.

  Nothing can keep a stopping pool from shutting down, in whatever order it acts and
  whatever others do meanwhile: as long as it is not down it can act
  (`Pool.exists_act?`), and every action brings the end nearer
  (`Pool.weight_step_lt`).  It does not claim more than once any more, because a poller that
  looks, or rests, leaves.

  The weight of a pool bounds the number of its actions from then on.  A job in the channel
  weighs as much as the actions that it takes, a busy worker as much as the calls that are
  left, and a poller that may still claim as much as the job that it would send.
-/
import Gunsmith.Proofs.Pool.Flow
import Gunsmith.Proofs.Service.Runs

namespace Gunsmith

/-- A bound on the actions that the poller of a stopping pool may cause. -/
def Poller.weight : Poller → Nat
  | .ready => 1
  | .waiting => 15
  | .reserved => 14
  | .holding _ => 13
  | .vacant => 2
  | .resting => 1
  | .gone => 0

/-- A bound on the actions of a worker until it leaves, if it receives no more jobs. -/
def Worker.weight : Worker → Nat
  | .idle => 1
  | .busy _ stage => stage.rank + 2
  | .gone => 0

namespace Pool

/-- A bound on the actions of a stopping pool. -/
def weight (pool : Pool) : Nat :=
  pool.poller.weight + 11 * pool.channel.length + (pool.workers.map Worker.weight).sum

/-- The pool acts, other than by being told to stop. -/
def Event.own : Event → Bool
  | .act _ .stop => false
  | .act _ _ => true
  | .call _ => false

variable {svc : Service} {capacity : Nat} {pool pool' : Pool} {ledger ledger' : Ledger}
  {event : Event}

/-- Where a worker is replaced, the sum changes with the weight of that worker. -/
theorem sum_weight_set {workers : List Worker} {i : Nat} {worker : Worker}
    (h : workers[i]? = some worker) (other : Worker) :
    ((workers.set i other).map Worker.weight).sum + worker.weight =
      (workers.map Worker.weight).sum + other.weight := by
  induction workers generalizing i with
  | nil => cases h
  | cons first workers ih =>
    cases i with
    | zero =>
      obtain rfl := Option.some.inj h
      rw [List.set_cons_zero, List.map_cons, List.map_cons, List.sum_cons, List.sum_cons]
      omega
    | succ i =>
      have hrest := ih h
      rw [List.set_cons_succ, List.map_cons, List.map_cons, List.sum_cons, List.sum_cons]
      omega

/-- A pool that stops goes on stopping. -/
theorem stopping_step (hstop : pool.stopping = true)
    (hstep : Step svc capacity pool ledger event pool' ledger') : pool'.stopping = true := by
  cases hstep with
  | stop => rfl
  | _ => exact hstop

/-- What others do, and being told to stop again, does not matter. -/
theorem weight_step_eq (hstep : Step svc capacity pool ledger event pool' ledger')
    (hown : event.own = false) : pool'.weight = pool.weight := by
  cases hstep with
  | stop => rfl
  | call => rfl
  | _ => cases hown

/-- **Every action brings a stopping pool nearer to its end.** -/
theorem weight_step_lt (hstop : pool.stopping = true)
    (hstep : Step svc capacity pool ledger event pool' ledger') (hown : event.own = true) :
    pool'.weight < pool.weight := by
  unfold weight
  cases hstep with
  | stop => cases hown
  | call => cases hown
  | look _ _ hgo => exact absurd hstop (Bool.eq_false_iff.mp hgo)
  | wake _ _ hgo => exact absurd hstop (Bool.eq_false_iff.mp hgo)
  | reserve _ hpoller _ =>
    simp only [hpoller, Poller.weight]
    omega
  | claim _ hpoller _ =>
    simp only [hpoller, Poller.weight]
    omega
  | miss _ hpoller _ _ =>
    simp only [hpoller, Poller.weight]
    omega
  | send _ hpoller =>
    simp only [hpoller, Poller.weight, List.length_append, List.length_singleton]
    omega
  | release _ hpoller =>
    simp only [hpoller, Poller.weight]
    omega
  | leave _ hpoller _ =>
    rcases hpoller with hpoller | hpoller | hpoller <;> simp only [hpoller, Poller.weight] <;> omega
  | @receive _ _ job _ hworker hchannel =>
    have hsum := sum_weight_set hworker (.busy job .lookUp)
    simp only [Worker.weight, Stage.rank] at hsum
    simp only [hchannel, List.length_cons]
    omega
  | @work m _ job stage hworker hstage =>
    have hsum := sum_weight_set hworker (.busy job (svc.step m job pool.desk stage).1)
    have hrank := svc.rank_step_lt m job pool.desk stage hstage
    simp only [Worker.weight] at hsum
    dsimp only
    omega
  | count _ hworker =>
    have hsum := sum_weight_set hworker .idle
    simp only [Worker.weight, Stage.rank] at hsum
    dsimp only
    omega
  | dismiss _ hworker _ _ =>
    have hsum := sum_weight_set hworker .gone
    simp only [Worker.weight] at hsum
    dsimp only
    omega

/-- **A stopping pool that is not down can act.** -/
theorem exists_act? (hstop : pool.stopping = true) (hdown : pool.isDown = false) (m : Moment) :
    ∃ action, action ≠ .stop ∧ (pool.act? svc capacity m action).isSome = true := by
  cases hpoller : pool.poller with
  | ready => exact ⟨.leave, by rintro ⟨⟩, by simp only [act?, hpoller, hstop]; rfl⟩
  | waiting => exact ⟨.leave, by rintro ⟨⟩, by simp only [act?, hpoller, hstop]; rfl⟩
  | resting => exact ⟨.leave, by rintro ⟨⟩, by simp only [act?, hpoller, hstop]; rfl⟩
  | reserved =>
    refine ⟨.claim, by rintro ⟨⟩, ?_⟩
    simp only [act?, hpoller]
    split <;> rfl
  | holding job => exact ⟨.send, by rintro ⟨⟩, by simp only [act?, hpoller]; rfl⟩
  | vacant => exact ⟨.release, by rintro ⟨⟩, by simp only [act?, hpoller]; rfl⟩
  | gone =>
    -- The poller is gone, so there is a worker that is not.
    obtain ⟨worker, hmem, hgone⟩ : ∃ worker ∈ pool.workers, worker ≠ .gone := by
      by_contra hnone
      push Not at hnone
      exact absurd (isDown_iff.mpr ⟨hpoller, hnone⟩) (Bool.eq_false_iff.mp hdown)
    obtain ⟨i, hworker⟩ := List.mem_iff_getElem?.mp hmem
    cases worker with
    | gone => exact absurd rfl hgone
    | idle =>
      cases hchannel : pool.channel with
      | nil =>
        exact ⟨.dismiss i, by rintro ⟨⟩, by simp only [act?, hworker, hpoller, hchannel]; rfl⟩
      | cons job rest =>
        exact ⟨.receive i, by rintro ⟨⟩, by simp only [act?, hworker, hchannel]; rfl⟩
    | busy job stage =>
      cases hstage : stage.answer? with
      | none => exact ⟨.work i, by rintro ⟨⟩, by simp only [act?, hworker, hstage]; rfl⟩
      | some answer =>
        refine ⟨.count i, by rintro ⟨⟩, ?_⟩
        obtain rfl := Stage.eq_done hstage
        simp only [act?, hworker]
        split <;> rfl

/-- **A pool that is told to stop shuts down**: its weight bounds the number of actions that it takes
from then on, and it can act until it is down. -/
theorem shutsDown {events : List Event} (hstop : pool.stopping = true)
    (hrun : after? svc capacity events pool ledger = some (pool', ledger')) :
    events.countP Event.own + pool'.weight ≤ pool.weight ∧
      (pool'.isDown = false → ∀ m, ∃ action, action ≠ .stop ∧
        (pool'.act? svc capacity m action).isSome = true) := by
  induction events generalizing pool ledger with
  | nil =>
    obtain ⟨rfl, rfl⟩ := Prod.mk.inj (Option.some.inj hrun)
    exact ⟨Nat.le_of_eq (Nat.zero_add _), exists_act? hstop⟩
  | cons event events ih =>
    rw [after?] at hrun
    split at hrun
    · cases hrun
    · next next _ hwatch =>
      have hstep := step_of_watch? hwatch
      obtain ⟨hbound, hacts⟩ := ih (stopping_step hstop hstep) hrun
      refine ⟨?_, hacts⟩
      rw [List.countP_cons]
      cases hown : event.own with
      | false =>
        have hweight := weight_step_eq hstep hown
        simp only [Bool.false_eq_true, if_false]
        omega
      | true =>
        have hweight := weight_step_lt hstop hstep hown
        simp only [if_true]
        omega

end Pool

end Gunsmith
