/-
  Whole runs, and the stores that they lead to.

  What every call keeps, a whole run keeps (`Service.run_keeps`): the calls may rely on the
  store being orderly, on the result that is carried along being one for the job, and on
  nothing but builds having been written up to the evaluation (`Service.Going`).

  The stores that come about (`Reachable`) are those which are set up from nothing and then
  written by the catalogue, by entering and claiming jobs, and by processing jobs one after
  the other.  All of them are orderly (`Reachable.orderly`), and the catalogue in them has
  its keys (`Reachable.catalogueKeys`).
-/
import Gunsmith.Proofs.Service.Steps
import Gunsmith.Proofs.Store.Catalogue

namespace Gunsmith

/-! ### The surroundings -/

/-- The ids that the moments hand out are those of no build, and no two are the same. -/
structure Fresh (moments : Nat → Moment) (s : Store) : Prop where
  unused : ∀ i, (moments i).fresh ∉ s.buildIds
  distinct : ∀ i j, (moments i).fresh = (moments j).fresh → i = j

variable {moments : Nat → Moment} {s s' : Store}

/-- After one id was used the others are still unused. -/
theorem Fresh.tail (h : Fresh moments s) (hids : s'.buildIds ⊆ (moments 0).fresh :: s.buildIds) :
    Fresh (fun i => moments (i + 1)) s' where
  unused i hi := by
    rcases List.mem_cons.mp (hids hi) with hfirst | hold
    · exact absurd (h.distinct _ _ hfirst) (Nat.succ_ne_zero i)
    · exact h.unused (i + 1) hold
  distinct i j hij := Nat.succ.inj (h.distinct (i + 1) (j + 1) hij)

theorem Stage.eq_done {stage : Stage} {answer : Except StoreError Outcome}
    (h : stage.answer? = some answer) : stage = .done answer := by
  cases stage
  case done other => exact congrArg Stage.done (Option.some.inj h)
  all_goals cases h

namespace Service

variable {svc : Service} {job : Job} {start desk : Desk} {stage : Stage}

/-! ### Runs -/

/-- The sums of what the evaluation of the job returns fit 64 bits, whatever builds there are. -/
def FitsFrom (svc : Service) (job : Job) (start : Desk) : Prop :=
  ∀ desk, start.SameButBuilds desk → svc.Fits job desk

/-- The processing of a job is under way. -/
structure Going (svc : Service) (job : Job) (start desk : Desk) (stage : Stage) : Prop where
  orderly : desk.store.Orderly
  carries : stage.Carries job
  early : stage.early = true → start.SameButBuilds desk

theorem going_lookUp (h : start.store.Orderly) : svc.Going job start start .lookUp :=
  ⟨h, carries_of_none rfl, fun _ => .refl start⟩

/-- A call keeps the processing under way. -/
theorem Going.step (hsvc : svc.Sound) (hjob : job.constraints.validate = .ok ())
    (hfits : svc.FitsFrom job start) {m : Moment} (hfresh : m.fresh ∉ desk.store.buildIds)
    (h : svc.Going job start desk stage) :
    svc.Going job start (svc.step m job desk stage).2 (svc.step m job desk stage).1 := by
  obtain ⟨horderly, hcarries⟩ := step_orderly hsvc hjob hfresh h.orderly h.carries
    fun hearly => hfits desk (h.early hearly)
  exact ⟨horderly, hcarries, step_early h.early⟩

theorem run_done (moments : Nat → Moment) (job : Job) (desk : Desk)
    (answer : Except StoreError Outcome) :
    svc.run moments job desk (.done answer) = (answer, desk) := by
  rw [run]
  rfl

theorem run_step (h : stage.answer? = none) (moments : Nat → Moment) (job : Job) (desk : Desk) :
    svc.run moments job desk stage =
      svc.run (fun i => moments (i + 1)) job (svc.step (moments 0) job desk stage).2
        (svc.step (moments 0) job desk stage).1 := by
  rw [run]
  split
  · next answer hanswer => cases h.symm.trans hanswer
  · rfl

/-- **Runs keep what calls keep.** -/
theorem run_keeps (hsvc : svc.Sound) (hjob : job.constraints.validate = .ok ())
    (hfits : svc.FitsFrom job start) {P : Stage → Desk → Prop}
    (hstep : ∀ (m : Moment) (desk : Desk) (stage : Stage), m.fresh ∉ desk.store.buildIds →
      svc.Going job start desk stage → P stage desk →
        P (svc.step m job desk stage).1 (svc.step m job desk stage).2)
    (hfresh : Fresh moments desk.store) (hgoing : svc.Going job start desk stage)
    (h : P stage desk) :
    svc.Going job start (svc.run moments job desk stage).2
        (.done (svc.run moments job desk stage).1) ∧
      P (.done (svc.run moments job desk stage).1) (svc.run moments job desk stage).2 := by
  induction moments, desk, stage using run.induct svc job with
  | case1 moments desk stage answer hanswer =>
    obtain rfl := Stage.eq_done hanswer
    rw [run_done]
    exact ⟨hgoing, h⟩
  | case2 moments desk stage hanswer next ih =>
    have hunused := hfresh.unused 0
    rw [run_step hanswer]
    exact ih (hfresh.tail (buildIds_step hgoing.orderly _ _ _))
      (hgoing.step hsvc hjob hfits hunused) (hstep _ _ _ hunused hgoing h)

/-- Processing a job keeps the store orderly. -/
theorem process_orderly (hsvc : svc.Sound) (hjob : job.constraints.validate = .ok ())
    (hfits : svc.FitsFrom job desk) (hfresh : Fresh moments desk.store)
    (h : desk.store.Orderly) : (svc.process moments job desk).2.store.Orderly := by
  obtain ⟨hgoing, -⟩ := @run_keeps moments svc job desk desk .lookUp hsvc hjob hfits
    (fun _ _ => True) (fun _ _ _ _ _ _ => trivial) hfresh (going_lookUp h) trivial
  exact hgoing.orderly

/-- **Processing a job** leaves the tables that no call writes. -/
theorem process_rows (svc : Service) (moments : Nat → Moment) (job : Job) (desk : Desk) (u : Table)
    (hu : ∀ stage : Stage, stage.table? ≠ some u) :
    (svc.process moments job desk).2.store.rows? u = desk.store.rows? u := by
  have hrun : ∀ stage, (svc.run moments job desk stage).2.store.rows? u = desk.store.rows? u := by
    intro stage
    induction moments, desk, stage using run.induct svc job with
    | case1 moments desk stage answer hanswer =>
      obtain rfl := Stage.eq_done hanswer
      rw [run_done]
    | case2 moments desk stage hanswer next ih =>
      rw [run_step hanswer]
      exact ih.trans (step_rows (moments 0) job desk (hu stage))
  exact hrun .lookUp

/-! ### Weapons without slots -/

/-- A service for weapons that have no slots. -/
def slotless (version : String) : Service where
  depth := 3
  version := version
  source _ :=
    { weapon id := pure (.ok ⟨id, id, ⟨-1, 2⟩⟩)
      slots _ := pure (.ok [])
      allowed _ := pure (.ok [])
      properties _ := pure (.ok ⟨⟨0, 0⟩, []⟩)
      offers _ := pure (.ok []) }

theorem sound_slotless (version : String) : (slotless version).Sound where
  depth := by
    show 3 ≤ maxDepth
    decide
  names store id memory w memory' h := by
    obtain ⟨hw, -⟩ := Prod.mk.inj h
    exact (Except.ok.inj hw) ▸ rfl

/-- The evaluation of a weapon without slots. -/
theorem evaluate_slotless {c : Constraints} (hc : c.validate = .ok ()) (version itemId : String)
    (stat : Stat) (desk : Desk) :
    ((slotless version).evaluate itemId stat c).run desk =
      (.ok ⟨⟨itemId, itemId, stat, ⟨-1, 2⟩, []⟩, ⟨0, 0, 0, 0⟩⟩, desk) := by
  let tree := CandidateTree.ofExpansion 3 stat c
    (.mk (CandidateTree.rootLabel ⟨itemId, itemId, ⟨-1, 2⟩⟩) [])
  have hbuild : (CandidateTree.build ((slotless version).source desk.store)
      (slotless version).depth itemId stat c).run desk.memory = (.ok tree, desk.memory) := by
    unfold CandidateTree.build CandidateTree.expansion
    rw [hc]
    rfl
  have hslots : tree.root.slots = [] := rfl
  unfold evaluate
  rw [ExceptT.run_mk]
  simp only [hbuild, CandidateTree.search, hslots, SearchContext.solve]
  rfl

theorem step_evaluate_slotless (hjob : job.constraints.validate = .ok ()) (version : String)
    (m : Moment) (desk : Desk) (buildId : String) :
    (slotless version).step m job desk (.evaluate buildId) =
      (.keep buildId ⟨job.itemId, job.itemId, job.stat, ⟨-1, 2⟩, []⟩, desk) := by
  simp only [step, evaluate_slotless hjob]

theorem fit_slotless : Totals.Fit ⟨-1, 2⟩ := by
  constructor <;> constructor <;> decide

theorem fits_slotless (version : String) (hjob : job.constraints.validate = .ok ())
    (desk : Desk) : (slotless version).Fits job desk := by
  intro outcome houtcome
  rw [evaluate_slotless hjob] at houtcome
  obtain rfl := Except.ok.inj houtcome
  exact fit_slotless

end Service

/-! ### The stores that come about -/

/-- A call that writes the catalogue. -/
inductive CatalogueWrite : Transaction Unit → Prop where
  | item (item : Item) : CatalogueWrite (.upsertItem item)
  | slot (ownerId slotId name : String) (position : Int) :
    CatalogueWrite (.upsertSlot ownerId slotId name position)
  | allowed (slotId itemId : String) (position : Int) :
    CatalogueWrite (.allowItem slotId itemId position)
  | conflict (itemId otherId : String) : CatalogueWrite (.addConflict itemId otherId)
  | offers (itemId : String) (offers : List Offer) : CatalogueWrite (.replaceOffers itemId offers)

theorem CatalogueWrite.orderly {action : Transaction Unit} (haction : CatalogueWrite action)
    (h : s.Orderly) : (action.call s).2.Orderly := by
  cases haction with
  | item item =>
    exact (Transaction.onlyWrites_upsertItem item).orderly (by decide) (by decide)
      (by decide) h
  | slot ownerId slotId name position =>
    exact (Transaction.onlyWrites_upsertSlot ownerId slotId name position).orderly (by decide)
      (by decide) (by decide) h
  | allowed slotId itemId position =>
    exact (Transaction.onlyWrites_allowItem slotId itemId position).orderly (by decide) (by decide)
      (by decide) h
  | conflict itemId otherId =>
    exact (Transaction.onlyWrites_addConflict itemId otherId).orderly (by decide) (by decide)
      (by decide) h
  | offers itemId offers =>
    exact (Transaction.onlyWrites_replaceOffers itemId offers).orderly (by decide) (by decide)
      (by decide) h

/-- Writing the catalogue keeps its keys. -/
theorem CatalogueWrite.catalogueKeys {action : Transaction Unit} (haction : CatalogueWrite action)
    (h : s.CatalogueKeys) : (action.call s).2.CatalogueKeys := by
  cases haction with
  | item item => exact Transaction.upsertItem_catalogueKeys h item
  | slot ownerId slotId name position =>
    exact (Transaction.onlyWrites_upsertSlot ownerId slotId name position).catalogueKeys
      (by decide) (by decide) h
  | allowed slotId itemId position =>
    exact Transaction.allowItem_catalogueKeys h slotId itemId position
  | conflict itemId otherId =>
    exact (Transaction.onlyWrites_addConflict itemId otherId).catalogueKeys (by decide)
      (by decide) h
  | offers itemId offers =>
    exact (Transaction.onlyWrites_replaceOffers itemId offers).catalogueKeys (by decide)
      (by decide) h

/-- The stores that come about: a store is set up, the catalogue is written, jobs are entered and
claimed, and jobs are processed one at a time, each by a service and with a memory and a cache of its
own. -/
inductive Reachable : Store → Prop where
  | fresh : Reachable .fresh
  | catalogue {s : Store} {action : Transaction Unit} (h : Reachable s)
    (haction : CatalogueWrite action) : Reachable (action.call s).2
  | enqueue {s : Store} (h : Reachable s) (m : Moment) (itemId : String) (stat : Stat)
    (c : Constraints) (priority : Int) :
    Reachable ((Transaction.enqueue m itemId stat c priority).call s).2
  | claim {s : Store} (h : Reachable s) (m : Moment) : Reachable ((Transaction.claim m).call s).2
  | process {svc : Service} {job : Job} {desk : Desk} {moments : Nat → Moment}
    (h : Reachable desk.store) (hsvc : svc.Sound) (hjob : job.constraints.validate = .ok ())
    (hfits : svc.FitsFrom job desk) (hfresh : Fresh moments desk.store) :
    Reachable (svc.process moments job desk).2.store

/-- **Stores that come about are orderly.** -/
theorem Reachable.orderly (h : Reachable s) : s.Orderly := by
  induction h with
  | fresh => exact Store.orderly_fresh
  | catalogue _ haction ih => exact haction.orderly ih
  | enqueue _ m itemId stat c priority ih =>
    exact Transaction.enqueue_orderly ih m itemId stat c priority
  | claim _ m ih => exact Transaction.claim_orderly ih m
  | process _ hsvc hjob hfits hfresh ih => exact Service.process_orderly hsvc hjob hfits hfresh ih

/-- **In stores that come about the catalogue has its keys.** -/
theorem Reachable.catalogueKeys (h : Reachable s) : s.CatalogueKeys := by
  induction h with
  | fresh => exact Store.catalogueKeys_fresh
  | catalogue _ haction ih => exact haction.catalogueKeys ih
  | enqueue _ m itemId stat c priority ih =>
    exact (Transaction.onlyWrites_enqueue m itemId stat c priority).catalogueKeys (by decide)
      (by decide) ih
  | claim _ m ih => exact (Transaction.onlyWrites_claim m).catalogueKeys (by decide) (by decide) ih
  | @process svc job desk moments _ _ _ _ _ ih =>
    exact ih.congr (svc.process_rows moments job desk .items fun stage => by cases stage <;> nofun)
      (svc.process_rows moments job desk .allowed fun stage => by cases stage <;> nofun)

end Gunsmith
