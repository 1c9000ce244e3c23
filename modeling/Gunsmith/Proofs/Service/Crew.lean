/-
  Several workers on one request.

  A crew works on one store; each of its workers processes a job of its own, and all jobs
  are about the same request (`Team`).  The workers make their calls in any order, each at a
  moment and with a memory and a cache that may be any (`Team.Call`, `Team.Runs`).

  A build that was completed is meant to be modified no more, and a worker looks for one before it
  writes.  But looking and writing are separate calls, and the writing asks for nothing: a worker
  that looked and found nothing overwrites the build later, when it marks it or records a failure
  with it, whatever others have stored by then (`Team.not_completed_stays`).  Apart from that a
  completed build stays: workers that look for it later leave it alone (`Team.completed_stays`).
-/
import Gunsmith.Proofs.Service.Agreement
import Mathlib.Logic.Function.Basic
import Mathlib.Logic.Relation

namespace Gunsmith

/-! ### What a call does to a completed build -/

namespace Stage

/-- The call writes the build without a result to store: it marks it, or records a failure. -/
def Overwrites : Stage → Prop
  | .mark => True
  | .spoil _ _ => True
  | _ => False

/-- The worker is yet to look for the build, or does not write it any more. -/
def Aside : Stage → Prop
  | .lookUp => True
  | .settle _ => True
  | .abandon _ => True
  | .done _ => True
  | _ => False

end Stage

namespace Service

variable {svc : Service} {job : Job} {desk : Desk} {stage : Stage} {m : Moment} {s s' : Store}

/-- The look-up finds a completed build with a result. -/
def Completed (svc : Service) (job : Job) (s : Store) : Prop :=
  ∃ b, s.completedBuild job.itemId job.stat job.constraints svc.version = .ok (some b) ∧
    b.status = .completed ∧ b.result.isSome

theorem Completed.congr (h : svc.Completed job s) (hrows : s'.rows? .builds = s.rows? .builds) :
    svc.Completed job s' := by
  obtain ⟨b, hb, hcompleted⟩ := h
  exact ⟨b, (Store.completedBuild_congr hrows).trans hb, hcompleted⟩

/-- Once a result was stored, a completed build is found. -/
theorem completed_publish {buildId : String} {result : BuildResult} {fromSubtree : Bool}
    (hjob : job.constraints.validate = .ok ()) (hfresh : m.fresh ∉ desk.store.buildIds)
    (ho : desk.store.Orderly) (hresult : result.Answers job.itemId job.stat) :
    svc.Completed job (svc.step m job desk (.publish buildId result fromSubtree)).2.store := by
  obtain ⟨b, s', hcall, -, hbuild, ⟨hstatus, hstored⟩, -⟩ := Transaction.upsertCompleted_call ho
    hfresh hjob hresult svc.version
  have hfound : s'.completedBuild job.itemId job.stat job.constraints svc.version =
      .ok (some b) := by
    rw [Store.completedBuild_eq hbuild, Option.filter_some, if_pos (decide_eq_true hstatus)]
  simp only [step, Desk.call_eq hcall]
  refine ⟨b, hfound, hstatus, ?_⟩
  rw [hstored]
  rfl

/-- **A completed build stays** when a call is made that does not overwrite it. -/
theorem completed_step (hjob : job.constraints.validate = .ok ())
    (hfresh : m.fresh ∉ desk.store.buildIds) (ho : desk.store.Orderly)
    (hcarries : stage.Carries job) (hstage : ¬ stage.Overwrites)
    (h : svc.Completed job desk.store) :
    svc.Completed job (svc.step m job desk stage).2.store := by
  cases stage
  case mark => exact absurd trivial hstage
  case spoil buildId message => exact absurd trivial hstage
  case publish buildId result fromSubtree =>
    exact completed_publish hjob hfresh ho (hcarries result rfl)
  -- The other calls do not write a build.
  all_goals exact h.congr (builds_step m job desk id)

/-- After the build was marked, none is completed. -/
theorem uncompleted_mark (hjob : job.constraints.validate = .ok ())
    (hfresh : m.fresh ∉ desk.store.buildIds) (ho : desk.store.Orderly) :
    (svc.step m job desk .mark).2.store.completedBuild job.itemId job.stat job.constraints
      svc.version = .ok none := by
  obtain ⟨b, s', hcall, -, hbuild, hstatus, -⟩ := Transaction.markProcessing_call ho hfresh hjob
    job.itemId job.stat svc.version
  have hdecide : decide (b.status = .completed) = false := by
    rw [hstatus]
    rfl
  simp only [step, Desk.call_eq hcall]
  rw [Store.completedBuild_eq hbuild, Option.filter_some, if_neg (by rw [hdecide]; decide)]

/-- After a failure was recorded with the build, none is completed. -/
theorem uncompleted_spoil {b : BuildRecord} (ho : desk.store.Orderly)
    (hb : desk.store.findBuild job.itemId job.stat job.constraints svc.version = .ok (some b))
    (message : String) :
    (svc.step m job desk (.spoil b.id message)).2.store.completedBuild job.itemId job.stat
      job.constraints svc.version = .ok none := by
  obtain ⟨s', hcall, -, hbuild, -⟩ := Transaction.markFailed_call ho hb m message
  simp only [step, Desk.call_eq hcall]
  rw [Store.completedBuild_eq hbuild]
  rfl

/-- Who looks for the build when it is completed keeps away from it. -/
theorem aside_step (h : svc.Completed job desk.store) (hstage : stage.Aside) :
    (svc.step m job desk stage).1.Aside := by
  cases stage
  case lookUp =>
    obtain ⟨b, hb, -⟩ := h
    simp only [step, hb]
    trivial
  case settle buildId =>
    simp only [step]
    split <;> trivial
  case abandon message =>
    simp only [step]
    split <;> trivial
  case done answer => trivial
  all_goals exact hstage.elim

theorem not_overwrites_of_aside (h : stage.Aside) : ¬ stage.Overwrites := by
  cases stage
  case mark => exact h.elim
  case spoil => exact h.elim
  all_goals exact id

end Service

/-! ### Crews -/

/-- Workers and their jobs, all of which are about one request. -/
structure Team (ι : Type) where
  svc : ι → Service
  job : ι → Job
  itemId : String
  stat : Stat
  constraints : Constraints
  version : String
  sound : ∀ i, (svc i).Sound
  accepted : constraints.validate = .ok ()
  version_eq : ∀ i, (svc i).version = version
  itemId_eq : ∀ i, (job i).itemId = itemId
  stat_eq : ∀ i, (job i).stat = stat
  constraints_eq : ∀ i, (job i).constraints = constraints

/-- The store that a crew works on, and the next call of each worker. -/
structure Crew (ι : Type) where
  store : Store
  stage : ι → Stage

namespace Team

variable {ι : Type} [DecidableEq ι] {team : Team ι} {crew crew' : Crew ι} {i : ι}

/-- What the look-up for a completed build finds. -/
def completed (team : Team ι) (s : Store) : Except StoreError (Option BuildRecord) :=
  s.completedBuild team.itemId team.stat team.constraints team.version

/-- A completed build with a result is found. -/
def Completed (team : Team ι) (s : Store) : Prop :=
  ∃ b, team.completed s = .ok (some b) ∧ b.status = .completed ∧ b.result.isSome

omit [DecidableEq ι] in
theorem completed_svc (team : Team ι) (i : ι) (s : Store) :
    (team.svc i).Completed (team.job i) s ↔ team.Completed s := by
  rw [Service.Completed, team.itemId_eq, team.stat_eq, team.constraints_eq, team.version_eq]
  rfl

/-- The crew after a worker has made its next call. -/
def next (team : Team ι) (crew : Crew ι) (i : ι) (m : Moment) (memory : Snapshot)
    (cache : Cache) : Crew ι :=
  let after := (team.svc i).step m (team.job i) ⟨crew.store, memory, cache⟩ (crew.stage i)
  ⟨after.2.store, Function.update crew.stage i after.1⟩

/-- A worker makes its next call, with some memory and cache.  The id that is handed out is that of no
build, and the sums of an evaluation fit 64 bits. -/
inductive Call (team : Team ι) (crew : Crew ι) (i : ι) : Crew ι → Prop where
  | intro (m : Moment) (memory : Snapshot) (cache : Cache)
    (hfresh : m.fresh ∉ crew.store.buildIds)
    (hfits : (crew.stage i).early = true →
      (team.svc i).Fits (team.job i) ⟨crew.store, memory, cache⟩) :
    Call team crew i (team.next crew i m memory cache)

/-- The workers make calls, in any order, as far as they are allowed to. -/
def Runs (team : Team ι) (Allowed : ι → Stage → Prop) : Crew ι → Crew ι → Prop :=
  Relation.ReflTransGen fun crew crew' =>
    ∃ i, Allowed i (crew.stage i) ∧ team.Call crew i crew'

/-- The store is orderly, and the results that are carried along are for the request. -/
structure Orderly (team : Team ι) (crew : Crew ι) : Prop where
  store : crew.store.Orderly
  carries : ∀ i, (crew.stage i).Carries (team.job i)

omit [DecidableEq ι] in
/-- A crew that has not begun is orderly. -/
theorem orderly_lookUp (hstore : crew.store.Orderly) (hstage : ∀ i, crew.stage i = .lookUp) :
    team.Orderly crew := by
  refine ⟨hstore, fun i => ?_⟩
  rw [hstage]
  exact Service.carries_of_none rfl

omit [DecidableEq ι] in
theorem accepted_job (team : Team ι) (i : ι) : (team.job i).constraints.validate = .ok () := by
  rw [team.constraints_eq]
  exact team.accepted

/-- Every call keeps the crew orderly. -/
theorem Orderly.call (h : team.Orderly crew) (hcall : team.Call crew i crew') :
    team.Orderly crew' := by
  obtain ⟨m, memory, cache, hfresh, hfits⟩ := hcall
  obtain ⟨hstore, hcarries⟩ := Service.step_orderly (team.sound i) (team.accepted_job i)
    (show m.fresh ∉ (Desk.mk crew.store memory cache).store.buildIds from hfresh) h.store
    (h.carries i) hfits
  refine ⟨hstore, ?_⟩
  apply (Function.forall_update_iff crew.stage fun j stage => stage.Carries (team.job j)).mpr
  exact ⟨hcarries, fun j _ => h.carries j⟩

/-- Runs keep the crew orderly. -/
theorem Orderly.run {Allowed : ι → Stage → Prop} (h : team.Orderly crew)
    (hrun : team.Runs Allowed crew crew') : team.Orderly crew' := by
  induction hrun with
  | refl => exact h
  | tail _ hcall ih =>
    obtain ⟨i, -, hcall⟩ := hcall
    exact ih.call hcall

/-- The call that stores a result leaves a completed build. -/
theorem completed_of_publish {buildId : String} {result : BuildResult} {fromSubtree : Bool}
    (h : team.Orderly crew) (hstage : crew.stage i = .publish buildId result fromSubtree)
    (hcall : team.Call crew i crew') : team.Completed crew'.store := by
  obtain ⟨m, memory, cache, hfresh, -⟩ := hcall
  have hresult : result.Answers (team.job i).itemId (team.job i).stat :=
    h.carries i result (by rw [hstage]; rfl)
  have hcompleted := @Service.completed_publish (team.svc i) (team.job i)
    ⟨crew.store, memory, cache⟩ m buildId result fromSubtree (team.accepted_job i) hfresh h.store
    hresult
  rw [← hstage, completed_svc] at hcompleted
  exact hcompleted

/-- While workers that look for it later keep aside, calls that do not overwrite it leave a completed
build, and these workers keep aside. -/
theorem completed_call {late : ι → Prop} (h : team.Orderly crew)
    (hcompleted : team.Completed crew.store) (haside : ∀ j, late j → (crew.stage j).Aside)
    (hallowed : ¬ late i → ¬ (crew.stage i).Overwrites) (hcall : team.Call crew i crew') :
    team.Completed crew'.store ∧ ∀ j, late j → (crew'.stage j).Aside := by
  obtain ⟨m, memory, cache, hfresh, -⟩ := hcall
  have hstage : ¬ (crew.stage i).Overwrites := by
    by_cases hlate : late i
    · exact Service.not_overwrites_of_aside (haside i hlate)
    · exact hallowed hlate
  have hdesk : (team.svc i).Completed (team.job i) (Desk.mk crew.store memory cache).store :=
    (team.completed_svc i crew.store).mpr hcompleted
  constructor
  · have hnext := Service.completed_step (team.accepted_job i)
      (show m.fresh ∉ (Desk.mk crew.store memory cache).store.buildIds from hfresh) h.store
      (h.carries i) hstage hdesk
    exact (team.completed_svc i _).mp hnext
  · apply (Function.forall_update_iff crew.stage fun j stage => late j → stage.Aside).mpr
    exact ⟨fun hlate => Service.aside_step hdesk (haside i hlate), fun j _ => haside j⟩

/-- **A completed build stays until it is overwritten**: from the moment a worker has stored a result,
a completed build with a result is found at every later point, as long as no worker that had begun to
look before marks the build or records a failure with it.  Workers that look later may do anything:
they never get that far. -/
theorem completed_stays {crew₀ crew₁ crew₂ crew₃ : Crew ι} {buildId : String}
    {result : BuildResult} {fromSubtree : Bool} (hstore : crew₀.store.Orderly)
    (hstart : ∀ j, crew₀.stage j = .lookUp)
    (hbefore : team.Runs (fun _ _ => True) crew₀ crew₁)
    (hstage : crew₁.stage i = .publish buildId result fromSubtree)
    (hpublish : team.Call crew₁ i crew₂)
    (hafter : team.Runs (fun j stage => crew₂.stage j ≠ .lookUp → ¬ stage.Overwrites) crew₂ crew₃) :
    ∃ b, team.completed crew₃.store = .ok (some b) ∧ b.status = .completed ∧
      b.result.isSome := by
  have horderly₁ : team.Orderly crew₁ := (orderly_lookUp hstore hstart).run hbefore
  have horderly₂ : team.Orderly crew₂ := horderly₁.call hpublish
  have hcompleted₂ : team.Completed crew₂.store := completed_of_publish horderly₁ hstage hpublish
  -- The invariant of the rest of the run speaks of the workers that have not looked yet.
  let late : ι → Prop := fun j => crew₂.stage j = .lookUp
  have haside₂ : ∀ j, late j → (crew₂.stage j).Aside := by
    intro j hj
    rw [show crew₂.stage j = .lookUp from hj]
    trivial
  suffices hrest : team.Orderly crew₃ ∧ team.Completed crew₃.store ∧
      ∀ j, late j → (crew₃.stage j).Aside from hrest.2.1
  induction hafter with
  | refl => exact ⟨horderly₂, hcompleted₂, haside₂⟩
  | tail _ hcall ih =>
    obtain ⟨j, hallowed, hcall⟩ := hcall
    obtain ⟨horderly, hcompleted, haside⟩ := ih
    exact ⟨horderly.call hcall, completed_call horderly hcompleted haside hallowed hcall⟩

end Team

/-! ### A sample -/

/-- Three workers on the request of the sample; for the last of them the source fails. -/
def sampleTeam : Team (Fin 3) where
  svc
    | 0 => .slotless "1"
    | 1 => .slotless "1"
    | 2 => (Service.slotless "1").withFaults [⟨.weapon, "w", .noRows⟩]
  job
    | 0 => sampleJob "a" true
    | 1 => sampleJob "b" true
    | 2 => sampleJob "c" true
  itemId := "w"
  stat := .recoil
  constraints := sampleConstraints
  version := "1"
  sound
    | 0 => Service.sound_slotless "1"
    | 1 => Service.sound_slotless "1"
    | 2 => (Service.sound_slotless "1").withFaults _
  accepted := rfl
  version_eq
    | 0 => rfl
    | 1 => rfl
    | 2 => rfl
  itemId_eq
    | 0 => rfl
    | 1 => rfl
    | 2 => rfl
  stat_eq
    | 0 => rfl
    | 1 => rfl
    | 2 => rfl
  constraints_eq
    | 0 => rfl
    | 1 => rfl
    | 2 => rfl

/-- The three jobs were claimed, and nothing has been done for them. -/
def sampleCrew : Crew (Fin 3) where
  store := sampleStore [sampleJob "a" true, sampleJob "b" true, sampleJob "c" true]
  stage _ := .lookUp

theorem reachable_sampleCrew : Reachable sampleCrew.store := by
  have second := @reachable_append [sampleJob "a" true] "b" reachable_sampleStore rfl rfl rfl
  exact @reachable_append [sampleJob "a" true, sampleJob "b" true] "c" second rfl rfl rfl

/-- The build of the sample. -/
def sampleResult : BuildResult := ⟨"w", "w", .recoil, ⟨-1, 2⟩, []⟩

/-- The row of the sample's request, in some state. -/
def sampleBuild (status : BuildStatus) (result : Option BuildResult) : BuildRecord :=
  Transaction.begun ⟨"2024-01-02", "x"⟩ "w" .recoil sampleConstraints "1" status result

/-- The build was marked. -/
def markedStore : Store :=
  { sampleCrew.store with builds := some [(sampleBuild .processing none).row] }

/-- The result was kept. -/
def keptStore : Store :=
  { markedStore with
    subtrees := some [SubtreeEntry.row ⟨"w", .recoil, sampleConstraints, "1", 3, sampleResult⟩] }

/-- The result was stored. -/
def publishedStore : Store :=
  { keptStore with builds := some [(sampleBuild .completed (some sampleResult)).row] }

/-- The job was completed. -/
def finishedStore : Store :=
  { publishedStore with
    jobs := some
      [Job.row { sampleJob "a" true with status := .completed, completedAt := some "2024-01-02" },
        (sampleJob "b" true).row, (sampleJob "c" true).row] }

theorem fits_sampleTeam (i : Fin 3) (desk : Desk) :
    (sampleTeam.svc i).Fits (sampleTeam.job i) desk := by
  match i with
  | 0 => exact Service.fits_slotless "1" rfl desk
  | 1 => exact Service.fits_slotless "1" rfl desk
  | 2 =>
    intro outcome h
    cases h

theorem call_sampleTeam {s : Store} {stages : Fin 3 → Stage} (i : Fin 3) (stage : Stage)
    (s' : Store) (fresh : String) (hfresh : fresh ∉ s.buildIds)
    (hstep : (sampleTeam.svc i).step ⟨"2024-01-02", fresh⟩ (sampleTeam.job i)
      ⟨s, .empty, .create .memory "1"⟩ (stages i) =
        (stage, ⟨s', .empty, .create .memory "1"⟩)) :
    sampleTeam.Call ⟨s, stages⟩ i ⟨s', Function.update stages i stage⟩ := by
  have hcall := @Team.Call.intro _ _ sampleTeam ⟨s, stages⟩ i ⟨"2024-01-02", fresh⟩ .empty
    (.create .memory "1") hfresh fun _ => fits_sampleTeam i _
  rw [Team.next, hstep] at hcall
  exact hcall

/-- The first worker stores its result while the second one is about to mark the build, and the third
one to record a failure. -/
theorem runs_sampleTeam : ∃ stages stages' message,
    sampleTeam.Runs (fun _ _ => True) sampleCrew ⟨keptStore, stages⟩ ∧
      stages 0 = .publish "x" sampleResult false ∧
      sampleTeam.Call ⟨keptStore, stages⟩ 0 ⟨publishedStore, stages'⟩ ∧
      stages' 0 = .finish "x" "x" sampleResult false ∧ stages' 1 = .mark ∧
      stages' 2 = .spoil "x" message := by
  have start : sampleTeam.Runs (fun _ _ => True) sampleCrew sampleCrew := .refl
  -- All three look, and find nothing.
  have first := start.tail
    ⟨0, trivial, call_sampleTeam 0 .mark sampleCrew.store "x" (by decide) rfl⟩
  have second := first.tail
    ⟨1, trivial, call_sampleTeam 1 .mark sampleCrew.store "x" (by decide) rfl⟩
  have third := second.tail
    ⟨2, trivial, call_sampleTeam 2 .mark sampleCrew.store "x" (by decide) rfl⟩
  -- The third one marks the build, and its source fails.
  have marks := third.tail
    ⟨2, trivial, call_sampleTeam 2 (.consult "x") markedStore "x" (by decide) rfl⟩
  have consults := marks.tail
    ⟨2, trivial, call_sampleTeam 2 (.evaluate "x") markedStore "y" (by decide) rfl⟩
  have fails := consults.tail
    ⟨2, trivial, call_sampleTeam 2 (.spoil "x" _) markedStore "y" (by decide) rfl⟩
  -- The first one marks the build as well, and comes to a result.
  have marks' := fails.tail
    ⟨0, trivial, call_sampleTeam 0 (.consult "x") markedStore "y" (by decide) rfl⟩
  have consults' := marks'.tail
    ⟨0, trivial, call_sampleTeam 0 (.evaluate "x") markedStore "y" (by decide) rfl⟩
  have evaluates := consults'.tail
    ⟨0, trivial, call_sampleTeam 0 (.keep "x" sampleResult) markedStore "y" (by decide)
      (Service.step_evaluate_slotless rfl _ _ _ _)⟩
  have keeps := evaluates.tail
    ⟨0, trivial, call_sampleTeam 0 (.publish "x" sampleResult false) keptStore "y" (by decide) rfl⟩
  exact ⟨_, _, _, keeps, rfl,
    call_sampleTeam 0 (.finish "x" "x" sampleResult false) publishedStore "y" (by decide) rfl,
    rfl, rfl, rfl⟩

/-- A worker makes a call after which no completed build is found. -/
theorem lose_sampleTeam {stages : Fin 3 → Stage} {stage : Stage} (i : Fin 3)
    (hstage : stages i = stage)
    (hnone : ((sampleTeam.svc i).step ⟨"2024-01-02", "y"⟩ (sampleTeam.job i)
      ⟨publishedStore, .empty, .create .memory "1"⟩ stage).2.store.completedBuild "w" .recoil
        sampleConstraints "1" = .ok none) :
    ∃ crew₃, sampleTeam.Call ⟨publishedStore, stages⟩ i crew₃ ∧
      sampleTeam.completed crew₃.store = .ok none := by
  have hfresh : "y" ∉ publishedStore.buildIds := by decide
  subst hstage
  exact ⟨_, .intro ⟨"2024-01-02", "y"⟩ .empty (.create .memory "1") hfresh
    fun _ => fits_sampleTeam i _, hnone⟩

namespace Team

theorem completed_stays_sample : ∃ crew₁ crew₂ crew₃ : Crew (Fin 3),
    sampleCrew.store.Orderly ∧ (∀ j, sampleCrew.stage j = .lookUp) ∧
      sampleTeam.Runs (fun _ _ => True) sampleCrew crew₁ ∧
      crew₁.stage 0 = .publish "x" sampleResult false ∧ sampleTeam.Call crew₁ 0 crew₂ ∧
      sampleTeam.Runs (fun j stage => crew₂.stage j ≠ .lookUp → ¬ stage.Overwrites) crew₂ crew₃ ∧
      crew₃.stage 0 = .done (.ok (.completed "x" ⟨-1, 2⟩ false)) ∧
      ∃ b, sampleTeam.completed crew₃.store = .ok (some b) ∧ b.status = .completed ∧
        b.result.isSome := by
  obtain ⟨stages, stages', message, hruns, hpublish, hcall, hfinish, -⟩ := runs_sampleTeam
  have ho : sampleCrew.store.Orderly := reachable_sampleCrew.orderly
  have hstart : ∀ j, sampleCrew.stage j = .lookUp := fun _ => rfl
  -- The first worker completes its job.
  have hdone : sampleTeam.Call ⟨publishedStore, stages'⟩ 0
      ⟨finishedStore, Function.update stages' 0 (.done (.ok (.completed "x" ⟨-1, 2⟩ false)))⟩ := by
    apply call_sampleTeam 0 _ _ "y" (by decide)
    rw [hfinish]
    rfl
  have hallowed : ¬ (stages' 0).Overwrites := by
    rw [hfinish]
    exact id
  have hafter : sampleTeam.Runs (fun j stage => stages' j ≠ .lookUp → ¬ stage.Overwrites)
      ⟨publishedStore, stages'⟩ _ := .tail .refl ⟨0, fun _ => hallowed, hdone⟩
  exact ⟨_, _, _, ho, hstart, hruns, hpublish, hcall, hafter, rfl,
    completed_stays ho hstart hruns hpublish hcall hafter⟩

/-- **A completed build can be lost**: three workers process different claimed jobs for the same
request, and one of them has stored its result.  If one that found nothing before marks the build now,
no completed build is found any more, and likewise if one whose source failed records its failure. -/
theorem not_completed_stays :
    Reachable sampleCrew.store ∧
      (∀ i, sampleCrew.store.job? (sampleTeam.job i).id = .ok (some (sampleTeam.job i)) ∧
        (sampleTeam.job i).status = .processing) ∧
      Function.Injective (fun i => (sampleTeam.job i).id) ∧
      (∀ i, sampleCrew.stage i = .lookUp) ∧
      ∃ crew₁ crew₂, sampleTeam.Runs (fun _ _ => True) sampleCrew crew₁ ∧
        crew₁.stage 0 = .publish "x" sampleResult false ∧ sampleTeam.Call crew₁ 0 crew₂ ∧
        crew₂.stage 0 = .finish "x" "x" sampleResult false ∧
        (∃ crew₃, sampleTeam.Call crew₂ 1 crew₃ ∧ sampleTeam.completed crew₃.store = .ok none) ∧
        ∃ crew₃, sampleTeam.Call crew₂ 2 crew₃ ∧ sampleTeam.completed crew₃.store = .ok none := by
  obtain ⟨stages, stages', message, hruns, hpublish, hcall, hfinish, hmark, hspoil⟩ :=
    runs_sampleTeam
  have ho : sampleCrew.store.Orderly := reachable_sampleCrew.orderly
  have hfound : ∀ i, sampleCrew.store.job? (sampleTeam.job i).id = .ok (some (sampleTeam.job i)) ∧
      (sampleTeam.job i).status = .processing := by
    intro i
    match i with
    | 0 => exact ⟨job?_sampleStore reachable_sampleCrew rfl, rfl⟩
    | 1 => exact ⟨job?_sampleStore reachable_sampleCrew rfl, rfl⟩
    | 2 => exact ⟨job?_sampleStore reachable_sampleCrew rfl, rfl⟩
  have hpublished : publishedStore.Orderly :=
    (((orderly_lookUp ho fun _ => rfl).run hruns).call hcall).store
  refine ⟨reachable_sampleCrew, hfound, by decide, fun _ => rfl, _, _, hruns, hpublish, hcall,
    hfinish, ?_, ?_⟩
  · apply lose_sampleTeam 1 hmark
    have hfresh : "y" ∉ publishedStore.buildIds := by decide
    exact @Service.uncompleted_mark (sampleTeam.svc 1) (sampleTeam.job 1)
      ⟨publishedStore, .empty, .create .memory "1"⟩ _ rfl hfresh hpublished
  · have hsound : (sampleBuild .completed (some sampleResult)).Sound := by
      refine ⟨rfl, fun r hr => ?_, fun _ => rfl⟩
      obtain rfl := Option.some.inj hr
      exact ⟨rfl, rfl, Service.fit_slotless⟩
    have hfind : publishedStore.findBuild "w" .recoil sampleConstraints "1" =
        .ok (some (sampleBuild .completed (some sampleResult))) := by
      obtain ⟨rows, hrows, hbuilds⟩ := hpublished.builds
      obtain rfl : [(sampleBuild .completed (some sampleResult)).row] = rows :=
        Option.some.inj hrows
      exact (Store.findBuild_eq_some hrows hbuilds).mpr ⟨hsound, rfl⟩
    apply lose_sampleTeam 2 hspoil
    exact @Service.uncompleted_spoil (sampleTeam.svc 2) (sampleTeam.job 2)
      ⟨publishedStore, .empty, .create .memory "1"⟩ _ _ hpublished hfind message

end Team

end Gunsmith
