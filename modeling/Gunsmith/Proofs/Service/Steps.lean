/-
  What every call for a job keeps.

  Whatever the job and whatever happened before, the calls of a service keep the store
  orderly (`Service.step_orderly`), and with it a promise about the result that the
  processing carries along: it is one for the item and the stat of the job.  A call writes
  one table at most (`Service.step_rows`).  New ids enter the table of builds only from the
  surroundings (`Service.buildIds_step`), and up to the evaluation only the table of builds
  is written (`Service.step_early`).

  Two things are asked of the surroundings: the ids that they hand out are not in use, and
  the sums of what is evaluated fit 64 bits.
-/
import Gunsmith.Proofs.Service.Evaluation
import Gunsmith.Proofs.Store.Calls

namespace Gunsmith

/-! ### Desks -/

namespace Desk

variable {α : Type} {desk desk' : Desk} {action : Transaction α} {answer : Except StoreError α}

/-- A call writes the store only. -/
theorem call_eq {s : Store} (h : action.call desk.store = (answer, s)) :
    desk.call action = (answer, { desk with store := s }) := by
  rw [call, h]

theorem store_call (h : desk.call action = (answer, desk')) :
    desk'.store = (action.call desk.store).2 := by
  rw [← show (desk.call action).2 = desk' from congrArg Prod.snd h]
  rfl

/-- The desk remembers and keeps in its cache what the other does, and its store is the same, except
perhaps for the builds. -/
structure SameButBuilds (start desk : Desk) : Prop where
  memory : desk.memory = start.memory
  cache : desk.cache = start.cache
  rows : ∀ t, t ≠ .builds → desk.store.rows? t = start.store.rows? t

theorem SameButBuilds.refl (desk : Desk) : desk.SameButBuilds desk := ⟨rfl, rfl, fun _ _ => rfl⟩

end Desk

/-! ### Stages -/

namespace Stage

/-- The result that the processing carries along. -/
def result? : Stage → Option BuildResult
  | .keep _ result => some result
  | .publish _ result _ => some result
  | .finish _ _ result _ => some result
  | _ => none

/-- The evaluation has not been made, nor has a failure been met. -/
def early : Stage → Bool
  | .lookUp => true
  | .mark => true
  | .consult _ => true
  | .evaluate _ => true
  | _ => false

/-- The call writes a build. -/
def WritesBuild : Stage → Prop
  | .mark => True
  | .publish .. => True
  | .spoil .. => True
  | _ => False

/-- The table that the call writes, if it writes any. -/
def table? : Stage → Option Table
  | .settle _ => some .jobs
  | .mark => some .builds
  | .evaluate _ => some .isolated
  | .keep .. => some .subtrees
  | .publish .. => some .builds
  | .finish .. => some .jobs
  | .spoil .. => some .builds
  | .abandon _ => some .jobs
  | _ => none

/-- The result that is carried along is one for the job. -/
def Carries (stage : Stage) (job : Job) : Prop :=
  ∀ r, stage.result? = some r → r.Answers job.itemId job.stat

end Stage

namespace Service

variable {svc : Service} {job : Job} {desk : Desk} {stage : Stage} {m : Moment}

/-- The sums of what the evaluation of the job at the desk returns fit 64 bits. -/
def Fits (svc : Service) (job : Job) (desk : Desk) : Prop :=
  ∀ outcome, ((svc.evaluate job.itemId job.stat job.constraints).run desk).1 = .ok outcome →
    outcome.result.sums.Fit

/-- What is asked of a service: its depth is one that there is, and its source returns the weapon
that it is asked for. -/
structure Sound (svc : Service) : Prop where
  depth : svc.depth ≤ maxDepth
  names : svc.NamesWeapons

/-- A service stays sound if some questions are made to fail. -/
theorem Sound.withFaults (h : svc.Sound) (faults : List Fault) : (svc.withFaults faults).Sound where
  depth := h.depth
  names store id memory w memory' hw := by
    have hguard : Fault.guard faults .weapon (svc.source store).weapon id memory =
        (.ok w, memory') := hw
    rw [Fault.guard] at hguard
    cases hfault : Fault.find? faults .weapon id with
    | some e =>
      rw [hfault] at hguard
      cases (Prod.mk.inj hguard).1
    | none =>
      rw [hfault] at hguard
      exact h.names store id memory w memory' hguard

/-- A stage without a result carries nothing. -/
theorem carries_of_none (h : stage.result? = none) : stage.Carries job := by
  intro r hr
  rw [h] at hr
  cases hr

/-- An evaluation keeps the store orderly. -/
theorem evaluate_orderly (hnames : svc.NamesWeapons) (h : desk.store.Orderly) :
    ((svc.evaluate job.itemId job.stat job.constraints).run desk).2.store.Orderly := by
  obtain ⟨hsame, -⟩ := svc.evaluate_keeps hnames desk
  exact h.congr (hsame .jobs (by decide)) (hsame .builds (by decide))
    (hsame .subtrees (by decide))

/-- **Every call keeps the store orderly**, and what it carries along is for the job. -/
theorem step_orderly (hsvc : svc.Sound) (hjob : job.constraints.validate = .ok ())
    (hfresh : m.fresh ∉ desk.store.buildIds) (hstore : desk.store.Orderly)
    (hcarries : stage.Carries job) (hfits : stage.early = true → svc.Fits job desk) :
    (svc.step m job desk stage).2.store.Orderly ∧ (svc.step m job desk stage).1.Carries job := by
  have orderly : ∀ {α : Type} {action : Transaction α} {answer : Except StoreError α}
      {desk' : Desk}, (action.call desk.store).2.Orderly → desk.call action = (answer, desk') →
        desk'.store.Orderly := by
    intro α action answer desk' ho h
    rw [Desk.store_call h]
    exact ho
  have completes := Transaction.moveJob_orderly hstore (Transaction.jobChange_completed m) job.id
    .completed
  cases stage with
  | lookUp =>
    simp only [step]
    split <;> exact ⟨hstore, carries_of_none rfl⟩
  | settle buildId =>
    simp only [step]
    split <;> next h => exact ⟨orderly completes h, carries_of_none rfl⟩
  | mark =>
    obtain ⟨b, s', hcall, ho, -⟩ := Transaction.markProcessing_call hstore hfresh hjob job.itemId
      job.stat svc.version
    simp only [step, Desk.call_eq hcall]
    exact ⟨ho, carries_of_none rfl⟩
  | consult buildId =>
    obtain ⟨found, hfound, hsound⟩ := hstore.subtree? job.itemId job.stat job.constraints
      svc.version svc.depth
    simp only [step, hfound]
    cases found with
    | none => exact ⟨hstore, carries_of_none rfl⟩
    | some e =>
      refine ⟨hstore, fun r hr => ?_⟩
      obtain rfl := Option.some.inj hr
      exact (hsound e rfl).1
  | evaluate buildId =>
    have ho : ((svc.evaluate job.itemId job.stat job.constraints).run desk).2.store.Orderly :=
      evaluate_orderly hsvc.names hstore
    obtain ⟨-, hresult⟩ := svc.evaluate_keeps hsvc.names desk
    have hfits := hfits rfl
    unfold Fits at hfits
    simp only [step]
    rcases hrun : (svc.evaluate job.itemId job.stat job.constraints).run desk with
      ⟨e | outcome, desk'⟩
    · rw [hrun] at ho
      exact ⟨ho, carries_of_none rfl⟩
    · rw [hrun] at ho hfits
      obtain ⟨hitem, hstat⟩ := hresult outcome (by rw [hrun])
      refine ⟨ho, fun r hr => ?_⟩
      obtain rfl := Option.some.inj hr
      exact ⟨hitem, hstat, hfits outcome rfl⟩
  | keep buildId result =>
    have hresult := hcarries result rfl
    obtain ⟨s', hcall, ho, -⟩ := @Transaction.upsertSubtree_call _ hstore
      ⟨job.itemId, job.stat, job.constraints, svc.version, svc.depth, result⟩
      ⟨hsvc.depth, hresult⟩
    simp only [step, Desk.call_eq hcall]
    exact ⟨ho, fun r hr => Option.some.inj hr ▸ hresult⟩
  | publish buildId result fromSubtree =>
    have hresult := hcarries result rfl
    obtain ⟨b, s', hcall, ho, -⟩ := Transaction.upsertCompleted_call hstore hfresh hjob hresult
      svc.version
    simp only [step, Desk.call_eq hcall]
    exact ⟨ho, fun r hr => Option.some.inj hr ▸ hresult⟩
  | finish buildId storedId result fromSubtree =>
    simp only [step]
    split <;> next h => exact ⟨orderly completes h, carries_of_none rfl⟩
  | spoil buildId message =>
    have spoils := Transaction.markFailed_orderly hstore m buildId message
    simp only [step]
    split <;> next h => exact ⟨orderly spoils h, carries_of_none rfl⟩
  | abandon message =>
    have fails := Transaction.moveJob_orderly hstore (Transaction.jobChange_failed m message) job.id
      .failed
    simp only [step]
    split <;> next h => exact ⟨orderly fails h, carries_of_none rfl⟩
  | done answer => exact ⟨hstore, carries_of_none rfl⟩

/-- **A call writes one table** at most, whatever its source. -/
theorem step_rows (m : Moment) (job : Job) (desk : Desk) {u : Table} (h : stage.table? ≠ some u) :
    (svc.step m job desk stage).2.store.rows? u = desk.store.rows? u := by
  have hcall : ∀ {α : Type} {t : Table} {action : Transaction α} {answer : Except StoreError α}
      {desk' : Desk}, Transaction.OnlyWrites t action → some t ≠ some u →
        desk.call action = (answer, desk') → desk'.store.rows? u = desk.store.rows? u := by
    intro α t action answer desk' haction ht hrun
    rw [Desk.store_call hrun]
    exact haction.call desk.store fun hu => ht (congrArg some hu.symm)
  cases stage with
  | lookUp =>
    simp only [step]
    split <;> rfl
  | settle buildId =>
    simp only [step]
    split <;> next hrun => exact hcall (Transaction.onlyWrites_moveJob _ _ _ _) h hrun
  | mark =>
    simp only [step]
    split <;> next hrun => exact hcall (Transaction.onlyWrites_upsertBuild _ _ _ _ _ _ _) h hrun
  | consult buildId =>
    simp only [step]
    split <;> rfl
  | evaluate buildId =>
    have hsame := (@evaluate_searches svc job.itemId job.stat job.constraints desk).1 u
      fun hu => h (congrArg some hu.symm)
    simp only [step]
    split <;> next hrun =>
      rw [hrun] at hsame
      exact hsame
  | keep buildId result =>
    simp only [step]
    split <;> next hrun => exact hcall (Transaction.onlyWrites_upsertSubtree _) h hrun
  | publish buildId result fromSubtree =>
    simp only [step]
    split <;> next hrun => exact hcall (Transaction.onlyWrites_upsertBuild _ _ _ _ _ _ _) h hrun
  | finish buildId storedId result fromSubtree =>
    simp only [step]
    split <;> next hrun => exact hcall (Transaction.onlyWrites_moveJob _ _ _ _) h hrun
  | spoil buildId message =>
    simp only [step]
    split <;> next hrun => exact hcall (Transaction.onlyWrites_markFailed _ _ _) h hrun
  | abandon message =>
    simp only [step]
    split <;> next hrun => exact hcall (Transaction.onlyWrites_moveJob _ _ _ _) h hrun
  | done answer => rfl

/-- Calls that do not write a build leave the table of builds. -/
theorem builds_step (m : Moment) (job : Job) (desk : Desk) (h : ¬ stage.WritesBuild) :
    (svc.step m job desk stage).2.store.rows? .builds = desk.store.rows? .builds := by
  refine step_rows m job desk fun hbuilds => h ?_
  cases stage
  case mark => trivial
  case publish => trivial
  case spoil => trivial
  all_goals cases hbuilds

/-- **New ids come from the surroundings**: after a call the ids of builds are those from before, and
perhaps the one that was handed out for the call. -/
theorem buildIds_step (hstore : desk.store.Orderly) (m : Moment) (job : Job) (stage : Stage) :
    (svc.step m job desk stage).2.store.buildIds ⊆ m.fresh :: desk.store.buildIds := by
  obtain ⟨rows, hrows, -⟩ := hstore.builds
  have hcall : ∀ {α : Type} {action : Transaction α} {answer : Except StoreError α} {desk' : Desk},
      (action.call desk.store).2.buildIds ⊆ m.fresh :: desk.store.buildIds →
        desk.call action = (answer, desk') →
          desk'.store.buildIds ⊆ m.fresh :: desk.store.buildIds := by
    intro α action answer desk' hids hrun
    rw [Desk.store_call hrun]
    exact hids
  cases stage
  case mark =>
    simp only [step]
    split <;> next hrun =>
      exact hcall (Transaction.buildIds_upsertBuild hrows _ _ _ _ _ _ _) hrun
  case publish buildId result fromSubtree =>
    simp only [step]
    split <;> next hrun =>
      exact hcall (Transaction.buildIds_upsertBuild hrows _ _ _ _ _ _ _) hrun
  case spoil buildId message =>
    have hids : ((Transaction.markFailed m buildId message).call desk.store).2.buildIds ⊆
        m.fresh :: desk.store.buildIds := by
      rw [Transaction.buildIds_markFailed hrows]
      exact List.subset_cons_self _ _
    simp only [step]
    split <;> next hrun => exact hcall hids hrun
  all_goals
    rw [Store.buildIds_congr (builds_step m job desk id)]
    exact List.subset_cons_self _ _

/-- **Up to the evaluation** a call changes builds at most. -/
theorem step_early {start : Desk}
    (hsame : stage.early = true → start.SameButBuilds desk)
    (h : (svc.step m job desk stage).1.early = true) :
    start.SameButBuilds (svc.step m job desk stage).2 := by
  cases stage
  case lookUp =>
    simp only [step] at h ⊢
    split <;> exact hsame rfl
  case mark =>
    have hrows : ∀ t, t ≠ .builds → ((Transaction.markProcessing m job.itemId job.stat
        job.constraints svc.version).call desk.store).2.rows? t = desk.store.rows? t :=
      fun t ht => (Transaction.onlyWrites_upsertBuild _ _ _ _ _ _ _).call desk.store ht
    obtain ⟨hmemory, hcache, hstart⟩ := hsame rfl
    have hmarks : ∀ {answer : Except StoreError String} {desk' : Desk},
        desk.call (.markProcessing m job.itemId job.stat job.constraints svc.version) =
          (answer, desk') → start.SameButBuilds desk' := by
      intro answer desk' hcall
      obtain rfl : (desk.call _).2 = desk' := congrArg Prod.snd hcall
      exact ⟨hmemory, hcache, fun t ht => (hrows t ht).trans (hstart t ht)⟩
    simp only [step] at h ⊢
    split <;> next hcall => exact hmarks hcall
  case consult buildId =>
    simp only [step] at h ⊢
    split <;> exact hsame rfl
  case done answer => cases h
  -- After all other calls the evaluation is over, or there was none.
  all_goals
    simp only [step] at h
    split at h <;> cases h

end Service

end Gunsmith
