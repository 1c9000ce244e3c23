/-
  How the tables agree once a job was processed.

  Processing a job that is waiting for it always ends (`Service.process_agrees`), and the
  tables then say the same as the outcome: the job has ended in the state that belongs to
  the outcome, and so has the build of the request; a result that was stored is also kept
  for the depth of the service.  What does not belong to the job or its request is as it
  was before (`Service.Apart`).

  The proof follows the calls.  `Service.Stands` says of each stage what has been found and
  written when it is reached; `Service.stands_step` takes it from one stage to the next.
-/
import Gunsmith.Proofs.Search.Optimality
import Gunsmith.Proofs.Service.Runs

namespace Gunsmith

namespace Store

/-- The job has ended in a state, with an error or without, and nothing else about it is new. -/
def Ended (s : Store) (job : Job) (status : JobStatus) (error : Option String) : Prop :=
  ∃ moment, s.job? job.id =
    .ok (some { job with status := status, completedAt := some moment, error := error })

end Store

namespace Service

variable {svc : Service} {job : Job} {start desk : Desk} {s s' s'' : Store}

/-! ### What belongs to a job -/

/-- What does not belong to the job and its request is as it was; evaluations may leave isolated
solutions. -/
structure Apart (svc : Service) (job : Job) (s s' : Store) : Prop where
  jobs : s'.otherJobs job.id = s.otherJobs job.id
  builds : s'.otherBuilds (.of job.itemId job.stat job.constraints svc.version) =
    s.otherBuilds (.of job.itemId job.stat job.constraints svc.version)
  subtrees : s'.otherSubtrees job.itemId job.stat job.constraints svc.version =
    s.otherSubtrees job.itemId job.stat job.constraints svc.version
  rows : ∀ t, t ≠ .jobs → t ≠ .builds → t ≠ .subtrees → t ≠ .isolated → s'.rows? t = s.rows? t

namespace Apart

theorem refl (svc : Service) (job : Job) (s : Store) : svc.Apart job s s :=
  ⟨rfl, rfl, rfl, fun _ _ _ _ _ => rfl⟩

theorem trans (h : svc.Apart job s s') (h' : svc.Apart job s' s'') : svc.Apart job s s'' where
  jobs := h'.jobs.trans h.jobs
  builds := h'.builds.trans h.builds
  subtrees := h'.subtrees.trans h.subtrees
  rows t hjobs hbuilds hsubtrees hisolated :=
    (h'.rows t hjobs hbuilds hsubtrees hisolated).trans (h.rows t hjobs hbuilds hsubtrees hisolated)

/-- Only the job was written. -/
theorem of_jobs (h : s'.otherJobs job.id = s.otherJobs job.id)
    (hrows : ∀ t, t ≠ .jobs → s'.rows? t = s.rows? t) : svc.Apart job s s' where
  jobs := h
  builds := Store.otherBuilds_congr (hrows .builds (by decide))
  subtrees := Store.otherSubtrees_congr (hrows .subtrees (by decide))
  rows t ht _ _ _ := hrows t ht

/-- Only the build of the request was written. -/
theorem of_builds (h : s'.otherBuilds (.of job.itemId job.stat job.constraints svc.version) =
      s.otherBuilds (.of job.itemId job.stat job.constraints svc.version))
    (hrows : ∀ t, t ≠ .builds → s'.rows? t = s.rows? t) : svc.Apart job s s' where
  jobs := Store.otherJobs_congr (hrows .jobs (by decide))
  builds := h
  subtrees := Store.otherSubtrees_congr (hrows .subtrees (by decide))
  rows t _ ht _ _ := hrows t ht

/-- Only the result kept for the request was written. -/
theorem of_subtrees (h : s'.otherSubtrees job.itemId job.stat job.constraints svc.version =
      s.otherSubtrees job.itemId job.stat job.constraints svc.version)
    (hrows : ∀ t, t ≠ .subtrees → s'.rows? t = s.rows? t) : svc.Apart job s s' where
  jobs := Store.otherJobs_congr (hrows .jobs (by decide))
  builds := Store.otherBuilds_congr (hrows .builds (by decide))
  subtrees := h
  rows t _ _ ht _ := hrows t ht

/-- Only isolated solutions were written. -/
theorem of_isolated (h : s.SameButIsolated s') : svc.Apart job s s' where
  jobs := Store.otherJobs_congr (h .jobs (by decide))
  builds := Store.otherBuilds_congr (h .builds (by decide))
  subtrees := Store.otherSubtrees_congr (h .subtrees (by decide))
  rows t _ _ _ ht := h t ht

end Apart

/-! ### Where the processing stands -/

/-- No completed build was there at the start. -/
def Uncompleted (svc : Service) (job : Job) (start : Desk) : Prop :=
  start.store.completedBuild job.itemId job.stat job.constraints svc.version = .ok none

/-- A result is kept that reaches the depth of the service. -/
def Kept (svc : Service) (job : Job) (s : Store) : Prop :=
  ∃ e, s.subtree? job.itemId job.stat job.constraints svc.version svc.depth = .ok (some e) ∧
    svc.depth ≤ e.depth

/-- A build is stored for the request that meets a condition. -/
def Stored (svc : Service) (job : Job) (s : Store) (P : BuildRecord → Prop) : Prop :=
  ∃ b, s.findBuild job.itemId job.stat job.constraints svc.version = .ok (some b) ∧ P b

/-- The build of the request was marked, and the job is still being processed. -/
structure Marked (svc : Service) (job : Job) (start : Desk) (buildId : String) (s : Store) :
    Prop where
  uncompleted : svc.Uncompleted job start
  pending : s.job? job.id = .ok (some job)
  build : svc.Stored job s fun b => b.id = buildId

/-- What the tables say about an outcome. -/
def Settled (svc : Service) (job : Job) (start desk : Desk) : Outcome → Prop
  | .alreadyCompleted buildId =>
    (∃ b, start.store.completedBuild job.itemId job.stat job.constraints svc.version =
      .ok (some b) ∧ b.id = buildId) ∧
    desk.store.Ended job .completed none ∧
    desk.memory = start.memory ∧ desk.cache = start.cache ∧
    ∀ t, t ≠ .jobs → desk.store.rows? t = start.store.rows? t
  | .completed buildId sums _ =>
    svc.Uncompleted job start ∧
    desk.store.Ended job .completed none ∧
    (svc.Stored job desk.store fun b => b.status = .completed ∧ b.id = buildId ∧
      ∃ r, b.result = some r ∧ r.sums = sums) ∧
    svc.Kept job desk.store
  | .failed message =>
    svc.Uncompleted job start ∧
    desk.store.Ended job .failed (some message) ∧
    (svc.Stored job desk.store fun b => b.status = .failed ∧ b.error = some message) ∧
    desk.store.rows? .subtrees = start.store.rows? .subtrees

/-- What has been found and written when a stage is reached. -/
def Stands (svc : Service) (job : Job) (start desk : Desk) : Stage → Prop
  | .lookUp => desk = start
  | .settle buildId =>
    desk = start ∧ ∃ b, start.store.completedBuild job.itemId job.stat job.constraints svc.version =
      .ok (some b) ∧ b.id = buildId
  | .mark => desk = start ∧ svc.Uncompleted job start
  | .consult buildId =>
    svc.Marked job start buildId desk.store ∧
      desk.store.rows? .subtrees = start.store.rows? .subtrees
  | .evaluate buildId =>
    svc.Marked job start buildId desk.store ∧
      desk.store.rows? .subtrees = start.store.rows? .subtrees
  | .keep buildId _ => svc.Marked job start buildId desk.store
  | .publish buildId _ _ => svc.Marked job start buildId desk.store ∧ svc.Kept job desk.store
  | .finish _ storedId result _ =>
    svc.Uncompleted job start ∧ desk.store.job? job.id = .ok (some job) ∧
      (svc.Stored job desk.store fun b => b.status = .completed ∧ b.id = storedId ∧
        b.result = some result) ∧
      svc.Kept job desk.store
  | .spoil buildId _ =>
    svc.Marked job start buildId desk.store ∧
      desk.store.rows? .subtrees = start.store.rows? .subtrees
  | .abandon message =>
    svc.Uncompleted job start ∧ desk.store.job? job.id = .ok (some job) ∧
      (svc.Stored job desk.store fun b => b.status = .failed ∧ b.error = some message) ∧
      desk.store.rows? .subtrees = start.store.rows? .subtrees
  | .done answer => ∃ outcome, answer = .ok outcome ∧ svc.Settled job start desk outcome

theorem Kept.congr (h : svc.Kept job s) (hrows : s'.rows? .subtrees = s.rows? .subtrees) :
    svc.Kept job s' := by
  obtain ⟨e, he, hdepth⟩ := h
  exact ⟨e, (Store.subtree?_congr hrows).trans he, hdepth⟩

theorem Stored.congr {P : BuildRecord → Prop} (h : svc.Stored job s P)
    (hrows : s'.rows? .builds = s.rows? .builds) : svc.Stored job s' P := by
  obtain ⟨b, hb, hP⟩ := h
  exact ⟨b, (Store.findBuild_congr hrows).trans hb, hP⟩

theorem Marked.congr {buildId : String} (h : svc.Marked job start buildId s)
    (hjobs : s'.rows? .jobs = s.rows? .jobs) (hbuilds : s'.rows? .builds = s.rows? .builds) :
    svc.Marked job start buildId s' where
  uncompleted := h.uncompleted
  pending := (Store.job?_congr hjobs).trans h.pending
  build := h.build.congr hbuilds

/-! ### Steps -/

/-- A job that is being processed may still end. -/
theorem mem_sources (h : job.status = .processing) :
    job.status ∈ [JobStatus.queued, JobStatus.processing] := by
  rw [h]
  decide

/-- Completing the job succeeds. -/
theorem setCompleted_call (ho : s.Orderly) (hjob : s.job? job.id = .ok (some job))
    (hstatus : job.status = .processing) (svc : Service) (m : Moment) :
    ∃ s', (Transaction.setCompleted m job.id).call s = (.ok (), s') ∧
      s'.Ended job .completed none ∧ svc.Apart job s s' ∧
      ∀ t, t ≠ .jobs → s'.rows? t = s.rows? t := by
  have herror : job.error = none :=
    (ho.sound_of_job? hjob).error_of_mem (mem_sources hstatus) (by decide)
  obtain ⟨s', hcall, -, hjob', hothers, hrows⟩ := @Transaction.moveJob_call _ ho _ _ _
    (Transaction.jobChange_completed m) _ .completed _ hjob (mem_sources hstatus)
  refine ⟨s', hcall, ⟨m.now, ?_⟩, .of_jobs hothers hrows, hrows⟩
  rw [hjob', ← herror]

/-- Failing the job succeeds. -/
theorem setFailed_call (ho : s.Orderly) (hjob : s.job? job.id = .ok (some job))
    (hstatus : job.status = .processing) (svc : Service) (m : Moment) (message : String) :
    ∃ s', (Transaction.setFailed m job.id message).call s = (.ok (), s') ∧
      s'.Ended job .failed (some message) ∧ svc.Apart job s s' ∧
      ∀ t, t ≠ .jobs → s'.rows? t = s.rows? t := by
  obtain ⟨s', hcall, -, hjob', hothers, hrows⟩ := @Transaction.moveJob_call _ ho _ _ _
    (Transaction.jobChange_failed m message) _ .failed _ hjob (mem_sources hstatus)
  exact ⟨s', hcall, ⟨m.now, hjob'⟩, .of_jobs hothers hrows, hrows⟩

/-- **Every call takes the processing from where one stage stands to where the next one does.** -/
theorem stands_step (hsvc : svc.Sound) (hstatus : job.status = .processing)
    (hfound : start.store.job? job.id = .ok (some job)) {m : Moment} {stage : Stage}
    (hfresh : m.fresh ∉ desk.store.buildIds) (hgoing : svc.Going job start desk stage)
    (hjob : job.constraints.validate = .ok ()) (h : svc.Stands job start desk stage) :
    svc.Apart job desk.store (svc.step m job desk stage).2.store ∧
      svc.Stands job start (svc.step m job desk stage).2 (svc.step m job desk stage).1 := by
  have ho := hgoing.orderly
  cases stage with
  | lookUp =>
    obtain rfl : desk = start := h
    obtain ⟨found, hlook, -⟩ := ho.completedBuild job.itemId job.stat job.constraints svc.version
    simp only [step, hlook]
    cases found with
    | none => exact ⟨.refl _ _ _, rfl, hlook⟩
    | some b => exact ⟨.refl _ _ _, rfl, b, hlook, rfl⟩
  | settle buildId =>
    obtain ⟨rfl, hbuild⟩ := h
    obtain ⟨s', hcall, hended, hapart, hrows⟩ := setCompleted_call ho hfound hstatus svc m
    simp only [step, Desk.call_eq hcall]
    exact ⟨hapart, _, rfl, hbuild, hended, rfl, rfl, hrows⟩
  | mark =>
    obtain ⟨rfl, hnone⟩ := h
    obtain ⟨b, s', hcall, -, hbuild, -, hothers, hrows⟩ := Transaction.markProcessing_call ho
      hfresh hjob job.itemId job.stat svc.version
    simp only [step, Desk.call_eq hcall]
    have hpending : s'.job? job.id = .ok (some job) :=
      (Store.job?_congr (hrows .jobs (by decide))).trans hfound
    exact ⟨.of_builds hothers hrows, ⟨hnone, hpending, b, hbuild, rfl⟩, hrows .subtrees (by decide)⟩
  | consult buildId =>
    obtain ⟨hmarked, hsubtrees⟩ := h
    obtain ⟨found, hlook, hdepth⟩ := ho.subtree? job.itemId job.stat job.constraints svc.version
      svc.depth
    simp only [step, hlook]
    cases found with
    | none => exact ⟨.refl _ _ _, hmarked, hsubtrees⟩
    | some e => exact ⟨.refl _ _ _, hmarked, e, hlook, (hdepth e rfl).2⟩
  | evaluate buildId =>
    obtain ⟨hmarked, hsubtrees⟩ := h
    obtain ⟨hsame, -⟩ := @evaluate_keeps svc job.itemId job.stat job.constraints hsvc.names desk
    have hmarked := hmarked.congr (hsame .jobs (by decide)) (hsame .builds (by decide))
    simp only [step]
    rcases hrun : (svc.evaluate job.itemId job.stat job.constraints).run desk with
      ⟨e | outcome, desk'⟩
    · rw [hrun] at hsame hmarked
      exact ⟨.of_isolated hsame, hmarked, (hsame .subtrees (by decide)).trans hsubtrees⟩
    · rw [hrun] at hsame hmarked
      exact ⟨.of_isolated hsame, hmarked⟩
  | keep buildId result =>
    obtain ⟨s', hcall, -, hkept, hothers, hrows⟩ := @Transaction.upsertSubtree_call _ ho
      ⟨job.itemId, job.stat, job.constraints, svc.version, svc.depth, result⟩
      ⟨hsvc.depth, hgoing.carries result rfl⟩
    simp only [step, Desk.call_eq hcall]
    exact ⟨.of_subtrees hothers hrows,
      Marked.congr h (hrows .jobs (by decide)) (hrows .builds (by decide)), hkept⟩
  | publish buildId result fromSubtree =>
    obtain ⟨hmarked, hkept⟩ := h
    obtain ⟨b, s', hcall, -, hbuild, ⟨hcompleted, hresult⟩, hothers, hrows⟩ :=
      Transaction.upsertCompleted_call ho hfresh hjob (hgoing.carries result rfl) svc.version
    simp only [step, Desk.call_eq hcall]
    have hpending : s'.job? job.id = .ok (some job) :=
      (Store.job?_congr (hrows .jobs (by decide))).trans hmarked.pending
    exact ⟨.of_builds hothers hrows, hmarked.uncompleted, hpending,
      ⟨b, hbuild, hcompleted, rfl, hresult⟩, hkept.congr (hrows .subtrees (by decide))⟩
  | finish buildId storedId result fromSubtree =>
    obtain ⟨hnone, hpending, hstored, hkept⟩ := h
    obtain ⟨s', hcall, hended, hapart, hrows⟩ := setCompleted_call ho hpending hstatus svc m
    obtain ⟨b, hb, hcompleted, hid, hresult⟩ := hstored.congr (hrows .builds (by decide))
    simp only [step, Desk.call_eq hcall]
    exact ⟨hapart, _, rfl, hnone, hended, ⟨b, hb, hcompleted, hid, result, hresult, rfl⟩,
      hkept.congr (hrows .subtrees (by decide))⟩
  | spoil buildId message =>
    obtain ⟨⟨hnone, hpending, b, hb, hid⟩, hsubtrees⟩ := h
    obtain rfl : b.id = buildId := hid
    obtain ⟨s', hcall, -, hbuild, hothers, hrows⟩ := Transaction.markFailed_call ho hb m message
    have hpending : s'.job? job.id = .ok (some job) :=
      (Store.job?_congr (hrows .jobs (by decide))).trans hpending
    simp only [step, Desk.call_eq hcall]
    exact ⟨.of_builds hothers hrows, hnone, hpending, ⟨_, hbuild, rfl, rfl⟩,
      (hrows .subtrees (by decide)).trans hsubtrees⟩
  | abandon message =>
    obtain ⟨hnone, hpending, hstored, hsubtrees⟩ := h
    obtain ⟨s', hcall, hended, hapart, hrows⟩ := setFailed_call ho hpending hstatus svc m message
    simp only [step, Desk.call_eq hcall]
    exact ⟨hapart, _, rfl, hnone, hended, hstored.congr (hrows .builds (by decide)),
      (hrows .subtrees (by decide)).trans hsubtrees⟩
  | done answer => exact ⟨.refl _ _ _, h⟩

/-! ### Whole runs -/

variable {moments : Nat → Moment}

/-- **A run to the end**: it does not fail, and the tables say the same as its outcome. -/
theorem process_settles (ho : start.store.Orderly) (hsvc : svc.Sound)
    (hfits : svc.FitsFrom job start) (hfresh : Fresh moments start.store)
    (hfound : start.store.job? job.id = .ok (some job)) (hstatus : job.status = .processing) :
    ∃ outcome desk, svc.process moments job start = (.ok outcome, desk) ∧
      svc.Settled job start desk outcome ∧ svc.Apart job start.store desk.store := by
  have hjob : job.constraints.validate = .ok () := (ho.sound_of_job? hfound).accepted
  let P : Stage → Desk → Prop := fun stage desk =>
    svc.Apart job start.store desk.store ∧ svc.Stands job start desk stage
  have hstep : ∀ (m : Moment) (desk : Desk) (stage : Stage), m.fresh ∉ desk.store.buildIds →
      svc.Going job start desk stage → P stage desk →
        P (svc.step m job desk stage).1 (svc.step m job desk stage).2 := by
    rintro m desk stage hunused hgoing ⟨hapart, hstands⟩
    obtain ⟨hnext, hstands⟩ := stands_step hsvc hstatus hfound hunused hgoing hjob hstands
    exact ⟨hapart.trans hnext, hstands⟩
  obtain ⟨-, hapart, outcome, houtcome, hsettled⟩ := run_keeps hsvc hjob hfits hstep hfresh
    (going_lookUp ho) ⟨.refl _ _ _, rfl⟩
  exact ⟨outcome, _, Prod.ext houtcome rfl, hsettled, hapart⟩

/-- If a completed build is there, two calls are made, the second of which completes the job. -/
theorem process_of_completed {b : BuildRecord} (ho : start.store.Orderly)
    (hfound : start.store.job? job.id = .ok (some job)) (hstatus : job.status = .processing)
    (hb : start.store.completedBuild job.itemId job.stat job.constraints svc.version =
      .ok (some b)) (moments : Nat → Moment) :
    svc.process moments job start =
      (.ok (.alreadyCompleted b.id), { start with
        store := ((Transaction.setCompleted (moments 1) job.id).call start.store).2 }) := by
  obtain ⟨s', hcall, -⟩ := setCompleted_call ho hfound hstatus svc (moments 1)
  have hlookUp : svc.step (moments 0) job start .lookUp = (.settle b.id, start) := by
    simp only [step, hb]
  have hsettle : svc.step (moments 1) job start (.settle b.id) =
      (.done (.ok (.alreadyCompleted b.id)), { start with store := s' }) := by
    simp only [step, Desk.call_eq hcall]
  rw [process, run_step rfl, hlookUp, run_step rfl, hsettle, run_done, hcall]

/-- **Processing a job leaves the tables in agreement**: on a store that comes about, it ends with an
outcome, the tables say the same as the outcome, and what does not belong to the job or its request is
as it was.  If a completed build was there, the outcome names it, and the source of data is not asked:
with any other source the same happens.  The source may fail at any question; sums are those of 64
bits, and new ids are unused. -/
theorem process_agrees (hstart : Reachable start.store) (hsvc : svc.Sound)
    (hfits : svc.FitsFrom job start) (hfresh : Fresh moments start.store)
    (hfound : start.store.job? job.id = .ok (some job)) (hstatus : job.status = .processing) :
    ∃ outcome desk, svc.process moments job start = (.ok outcome, desk) ∧
      svc.Settled job start desk outcome ∧ svc.Apart job start.store desk.store ∧
      ∀ b, start.store.completedBuild job.itemId job.stat job.constraints svc.version =
          .ok (some b) →
        outcome = .alreadyCompleted b.id ∧
          ∀ source, ({ svc with source := source } : Service).process moments job start =
            (.ok outcome, desk) := by
  have ho := hstart.orderly
  obtain ⟨outcome, desk, hrun, hsettled, hapart⟩ :=
    process_settles ho hsvc hfits hfresh hfound hstatus
  refine ⟨outcome, desk, hrun, hsettled, hapart, fun b hb => ?_⟩
  have hanswer := process_of_completed ho hfound hstatus hb moments
  rw [hrun] at hanswer
  obtain ⟨houtcome, rfl⟩ := Prod.mk.inj hanswer
  obtain rfl := Except.ok.inj houtcome
  refine ⟨rfl, fun source => ?_⟩
  exact @process_of_completed { svc with source := source } job start b ho hfound hstatus hb moments

end Service

/-! ### A sample -/

/-- Moments with an id each. -/
def sampleMoments (i : Nat) : Moment := ⟨"2024-01-01", String.ofList (List.replicate i 'x')⟩

theorem fresh_sampleMoments {s : Store} (h : s.buildIds = []) : Fresh sampleMoments s where
  unused i := by
    rw [h]
    exact List.not_mem_nil
  distinct i j hij := by
    have hlist : List.replicate i 'x' = List.replicate j 'x' := String.ofList_injective hij
    have hlength := congrArg List.length hlist
    rwa [List.length_replicate, List.length_replicate] at hlength

/-- A job that waits, and the same job once it was claimed. -/
def sampleJob (id : String) (claimed : Bool) : Job where
  id := id
  itemId := "w"
  stat := .recoil
  constraints := sampleConstraints
  priority := 0
  status := if claimed then .processing else .queued
  createdAt := "2024-01-01"
  startedAt := if claimed then some "2024-01-02" else none
  completedAt := none
  error := none

theorem sound_sampleJob (id : String) (claimed : Bool) : (sampleJob id claimed).Sound where
  accepted := by
    show sampleConstraints.validate = .ok ()
    rfl
  error _ := rfl

/-- The store with some jobs and nothing else. -/
def sampleStore (jobs : List Job) : Store := { Store.fresh with jobs := some (jobs.map Job.row) }

/-- One more job is entered and claimed, if it is the only one that waits. -/
theorem reachable_append {jobs : List Job} {id : String} (h : Reachable (sampleStore jobs))
    (hentered : ((Transaction.enqueue ⟨"2024-01-01", id⟩ "w" .recoil sampleConstraints 0).call
      (sampleStore jobs)).2 = sampleStore (jobs ++ [sampleJob id false]))
    (hfirst : JobRow.first? (JobRow.waiting ((jobs ++ [sampleJob id false]).map Job.row)) =
      some (sampleJob id false).row)
    (hmoved : (updateRows (Transaction.movable id [.queued])
        (fun row : JobRow => { row with
          status := JobStatus.processing.keyword
          startedAt := some "2024-01-02" }) ((jobs ++ [sampleJob id false]).map Job.row)).1 =
      (jobs ++ [sampleJob id true]).map Job.row) :
    Reachable (sampleStore (jobs ++ [sampleJob id true])) := by
  have hclaimed := (h.enqueue ⟨"2024-01-01", id⟩ "w" .recoil sampleConstraints 0).claim
    ⟨"2024-01-02", id⟩
  rw [hentered, Transaction.claim_call rfl (sound_sampleJob id false) hfirst] at hclaimed
  rw [sampleStore, ← hmoved]
  exact hclaimed

theorem reachable_sampleStore : Reachable (sampleStore [sampleJob "a" true]) :=
  @reachable_append [] "a" .fresh rfl rfl rfl

theorem job?_sampleStore {jobs : List Job} (h : Reachable (sampleStore jobs)) {id : String}
    (hfind : (jobs.map Job.row).find? (fun row => row.id = id) = some (sampleJob id true).row) :
    (sampleStore jobs).job? id = .ok (some (sampleJob id true)) := by
  obtain ⟨rows, hrows, ho⟩ := h.orderly.jobs
  obtain rfl : jobs.map Job.row = rows := Option.some.inj hrows
  exact (Store.job?_eq_some hrows ho).mpr ⟨sound_sampleJob id true, hfind⟩

/-- The sample with nothing remembered and an empty cache. -/
def sampleDesk : Desk := ⟨sampleStore [sampleJob "a" true], .empty, .create .memory "1"⟩

theorem Service.process_agrees_sample :
    Reachable sampleDesk.store ∧ (slotless "1").Sound ∧
      (slotless "1").FitsFrom (sampleJob "a" true) sampleDesk ∧
      Fresh sampleMoments sampleDesk.store ∧
      sampleDesk.store.job? (sampleJob "a" true).id = .ok (some (sampleJob "a" true)) ∧
      (sampleJob "a" true).status = .processing ∧
      ∃ outcome desk, (slotless "1").process sampleMoments (sampleJob "a" true) sampleDesk =
          (.ok outcome, desk) ∧
        (slotless "1").Settled (sampleJob "a" true) sampleDesk desk outcome ∧
        (slotless "1").Apart (sampleJob "a" true) sampleDesk.store desk.store ∧
        ∀ b, sampleDesk.store.completedBuild "w" .recoil sampleConstraints "1" = .ok (some b) →
          outcome = .alreadyCompleted b.id ∧
            ∀ source, ({ slotless "1" with source := source } : Service).process sampleMoments
              (sampleJob "a" true) sampleDesk = (.ok outcome, desk) := by
  have hsound := sound_slotless "1"
  have hfits : (slotless "1").FitsFrom (sampleJob "a" true) sampleDesk :=
    fun desk _ => fits_slotless "1" (sound_sampleJob "a" true).accepted desk
  have hfresh : Fresh sampleMoments sampleDesk.store := fresh_sampleMoments rfl
  have hfound : sampleDesk.store.job? "a" = .ok (some (sampleJob "a" true)) :=
    job?_sampleStore reachable_sampleStore rfl
  exact ⟨reachable_sampleStore, hsound, hfits, hfresh, hfound, rfl,
    process_agrees reachable_sampleStore hsound hfits hfresh hfound rfl⟩

end Gunsmith
