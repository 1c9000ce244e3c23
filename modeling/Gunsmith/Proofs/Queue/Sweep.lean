/-
  Sweeps, and when they enter all jobs or none.

  A sweep checks the levels of its profiles before it enters anything, and a table that is
  missing or a catalogue that cannot be read ends it at once as well.  What is left is the
  name of a weapon: it is looked at only when the turn of its first job has come, and a blank
  one ends the sweep there.  The jobs before it stay (`enter_eq`).

  So a sweep enters all its jobs or does nothing (`Sweep.AllOrNothing`) as long as no blank
  name stands behind another one (`Sweep.BlankFirst`), which is the headline result here
  (`Sweep.allOrNothing`); behind other names a blank one leaves their jobs behind
  (`Sweep.enqueueAll_of_blank`).

  The jobs of a sweep have one priority and stand in the order in which they were entered, so
  they are claimed in this order (`Sweep.inTurn_append`).
-/
import Gunsmith.Proofs.Queue.Turns
import Gunsmith.Sweep
import Mathlib.Data.List.TakeWhile

namespace Gunsmith

/-- The ids that the moments hand out are those of no job, and no two are the same. -/
structure FreshJobs (moments : Nat → Moment) (s : Store) : Prop where
  unused : ∀ i, (moments i).fresh ∉ s.jobRows.map JobRow.id
  distinct : ∀ i j, (moments i).fresh = (moments j).fresh → i = j

namespace Sweep

/-! ### What a sweep stands for -/

/-- What a sweep asks for, with the weapons that it covers. -/
abbrev Request := String × Stat × Constraints

/-- The weapons that a sweep covers. -/
def covered (sweep : Sweep) (s : Store) : Except StoreError (List String) :=
  match sweep.weapons with
  | some ids => .ok ids
  | none => s.weaponIds

/-- The jobs for some requests, each as it is entered at its moment. -/
def entries (priority : Int) (moments : Nat → Moment) (requests : List Request) : List Job :=
  requests.mapIdx fun i r => Transaction.entered (moments i) r.1 r.2.1 r.2.2 priority

/-- The jobs of a sweep over some weapons. -/
def jobs (sweep : Sweep) (moments : Nat → Moment) (weapons : List String) : List Job :=
  entries sweep.priority moments (sweep.requests weapons)

/-- The request names an item. -/
def Named (r : Request) : Bool := !Text.isAllBlank r.1

/-- No blank name stands behind another one. -/
def BlankFirst (weapons : List String) : Prop :=
  (∃ weapon ∈ weapons, Text.isAllBlank weapon = true) →
    ∃ weapon ∈ weapons.head?, Text.isAllBlank weapon = true

variable {priority : Int} {moments : Nat → Moment} {requests : List Request} {s s' : Store}
  {rows : List JobRow} {sweep : Sweep} {weapons : List String}

theorem entries_cons (r : Request) (requests : List Request) :
    entries priority moments (r :: requests) =
      Transaction.entered (moments 0) r.1 r.2.1 r.2.2 priority ::
        entries priority (fun i => moments (i + 1)) requests :=
  List.mapIdx_cons

/-! ### Entering one after the other -/

theorem freshJobs_tail (hfresh : FreshJobs moments s)
    (hrows : s'.jobRows.map JobRow.id = s.jobRows.map JobRow.id ++ [(moments 0).fresh]) :
    FreshJobs (fun i => moments (i + 1)) s' where
  unused i := by
    rw [hrows, List.mem_append, List.mem_singleton]
    rintro (hold | hfirst)
    · exact hfresh.unused (i + 1) hold
    · exact Nat.succ_ne_zero i (hfresh.distinct _ _ hfirst)
  distinct i j hij := Nat.succ.inj (hfresh.distinct (i + 1) (j + 1) hij)

/-- Nothing is entered if the first request names no item. -/
theorem enter_of_blank {r : Request} (hvalid : r.2.2.validate = .ok ()) (hr : Named r = false)
    (requests : List Request) (s : Store) :
    enter priority moments (r :: requests) s =
      (.error (.badField "item_id" "不能为空"), s) := by
  obtain ⟨item, stat, c⟩ := r
  have hitem : Text.isAllBlank item = true := by simpa [Named] using hr
  rw [enter, Transaction.call_error (Transaction.enqueue_of_blank hvalid hitem _ _ _ s)]

/-- **The jobs before the first blank name** are entered, and the others are not. -/
theorem enter_eq (h : s.jobs = some rows) (hfresh : FreshJobs moments s)
    (hvalid : ∀ r ∈ requests, r.2.2.validate = .ok ()) :
    enter priority moments requests s =
      (if requests.all Named then .ok ((entries priority moments requests).map Job.id)
        else .error (.badField "item_id" "不能为空"),
      s.put .jobs
        (some (rows ++ (entries priority moments (requests.takeWhile Named)).map Job.row))) := by
  have hsame : ∀ {s : Store} {rows : List JobRow}, s.jobs = some rows →
      s.put .jobs (some (rows ++ [])) = s := by
    intro s rows h
    rw [List.append_nil, ← h]
    rfl
  -- What is left after the first request begins at the next moment, whose ids are still new.
  induction requests generalizing moments s rows with
  | nil => exact Prod.ext rfl (hsame h).symm
  | cons r requests ih =>
    have hr : r.2.2.validate = .ok () := hvalid _ List.mem_cons_self
    cases hnamed : Named r with
    | false =>
      rw [enter_of_blank hr hnamed, List.all_cons, List.takeWhile_cons, hnamed]
      exact Prod.ext rfl (hsame h).symm
    | true =>
      obtain ⟨item, stat, c⟩ := r
      have hitem : Text.isAllBlank item = false := by simpa [Named] using hnamed
      have hid : (moments 0).fresh ∉ rows.map JobRow.id := by
        have hunused := hfresh.unused 0
        rwa [Store.jobRows, h, Option.getD_some] at hunused
      have htail : FreshJobs (fun i => moments (i + 1)) (s.put .jobs (some (rows ++
          [(Transaction.entered (moments 0) item stat c priority).row]))) := by
        refine freshJobs_tail hfresh ?_
        show (rows ++ [_]).map JobRow.id = (s.jobs.getD []).map JobRow.id ++ _
        rw [h, List.map_append]
        rfl
      rw [enter, Transaction.call_ok (Transaction.enqueue_of_accepted h hr hitem hid stat priority)]
      dsimp only
      rw [ih rfl htail fun r hr => hvalid r (List.mem_cons_of_mem _ hr), List.all_cons,
        List.takeWhile_cons, hnamed, if_pos rfl, Bool.true_and, entries_cons, entries_cons,
        List.append_assoc]
      refine Prod.ext ?_ rfl
      show (Except.map _ (if requests.all Named = true then _ else _)) =
        if requests.all Named = true then _ else _
      split <;> rfl

/-- Without the table nothing is entered. -/
theorem enter_of_missing (h : s.jobs = none) (priority : Int) (moments : Nat → Moment)
    (hrequests : requests ≠ []) :
    ∃ e, enter priority moments requests s = (.error e, s) := by
  cases requests with
  | nil => exact absurd rfl hrequests
  | cons r requests =>
    obtain ⟨item, stat, c⟩ := r
    obtain ⟨e, he⟩ := Transaction.enqueue_of_missing h (moments 0) item stat c priority
    exact ⟨e, by rw [enter, Transaction.call_error he]⟩

/-! ### The requests of a sweep -/

theorem requests_append (sweep : Sweep) (before later : List String) :
    sweep.requests (before ++ later) = sweep.requests before ++ sweep.requests later :=
  List.flatMap_append

theorem mem_requests {r : Request} (h : r ∈ sweep.requests weapons) :
    r.1 ∈ weapons ∧ ∃ profile ∈ sweep.profiles, r.2.2 = .ofLevels profile := by
  obtain ⟨weapon, hweapon, h⟩ := List.mem_flatMap.mp h
  obtain ⟨stat, -, h⟩ := List.mem_flatMap.mp h
  obtain ⟨profile, hprofile, rfl⟩ := List.mem_map.mp h
  exact ⟨hweapon, profile, hprofile, rfl⟩

/-- The first request is one for the first weapon. -/
theorem requests_head (sweep : Sweep) (weapon : String) (weapons : List String) :
    sweep.requests (weapon :: weapons) = [] ∨
      ∃ r later, sweep.requests (weapon :: weapons) = r :: later ∧ r.1 = weapon := by
  rw [requests]
  cases sweep.stats with
  | nil =>
    left
    exact List.flatMap_eq_nil_iff.mpr fun _ _ => rfl
  | cons stat stats =>
    cases sweep.profiles with
    | nil =>
      left
      exact List.flatMap_eq_nil_iff.mpr fun _ _ => List.flatMap_eq_nil_iff.mpr fun _ _ => rfl
    | cons profile profiles =>
      right
      exact ⟨_, _, rfl, rfl⟩

/-- All requests name an item if all weapons have a name. -/
theorem all_named (sweep : Sweep) (h : ∀ weapon ∈ weapons, Text.isAllBlank weapon = false) :
    (sweep.requests weapons).all Named = true := by
  refine List.all_eq_true.mpr fun r hr => ?_
  rw [Named, h r.1 (mem_requests hr).1]
  rfl

/-- No request is named before one for a weapon without a name. -/
theorem takeWhile_named_of_blank (sweep : Sweep) {weapon : String}
    (h : Text.isAllBlank weapon = true) (weapons : List String) :
    (sweep.requests (weapon :: weapons)).takeWhile Named = [] := by
  rcases requests_head sweep weapon weapons with hnil | ⟨r, later, hcons, rfl⟩
  · rw [hnil, List.takeWhile_nil]
  · rw [hcons, List.takeWhile_cons, Named, h]
    rfl

theorem validate_eq_ok : sweep.validate = .ok () ↔
    ∀ profile ∈ sweep.profiles, (Constraints.ofLevels profile).validate = .ok () := by
  rw [validate]
  induction sweep.profiles with
  | nil => exact ⟨fun _ _ h => absurd h List.not_mem_nil, fun _ => rfl⟩
  | cons profile profiles ih =>
    rw [List.forall_mem_cons, ← ih]
    show ((Constraints.ofLevels profile).validate.mapError _ >>= fun _ => profiles.forM _) =
      Except.ok () ↔ _
    cases hvalid : (Constraints.ofLevels profile).validate with
    | error e => exact ⟨nofun, fun h => absurd h.1 nofun⟩
    | ok u => exact ⟨fun h => ⟨rfl, h⟩, fun h => h.2⟩

/-- The constraints of all requests are accepted if the profiles are. -/
theorem validate_requests (hvalid : sweep.validate = .ok ()) (weapons : List String) :
    ∀ r ∈ sweep.requests weapons, r.2.2.validate = .ok () := by
  intro r hr
  obtain ⟨-, profile, hprofile, heq⟩ := mem_requests hr
  rw [heq]
  exact validate_eq_ok.mp hvalid profile hprofile

/-- A sweep that begins enters its requests one after the other. -/
theorem enqueueAll_of_valid (hvalid : sweep.validate = .ok ())
    (hcovered : sweep.covered s = .ok weapons) (moments : Nat → Moment) :
    sweep.enqueueAll moments s = enter sweep.priority moments (sweep.requests weapons) s := by
  rw [covered] at hcovered
  rw [enqueueAll, hvalid]
  cases hweapons : sweep.weapons with
  | some ids =>
    rw [hweapons] at hcovered
    obtain rfl := Except.ok.inj hcovered
    rfl
  | none =>
    rw [hweapons] at hcovered
    simp only [bind, Except.bind, hcovered]

/-- A sweep that does not begin changes nothing. -/
theorem enqueueAll_of_invalid
    (h : ¬ (sweep.validate = .ok () ∧ ∃ weapons, sweep.covered s = .ok weapons))
    (moments : Nat → Moment) : ∃ e, sweep.enqueueAll moments s = (.error e, s) := by
  rw [covered] at h
  rw [enqueueAll]
  cases hvalid : sweep.validate with
  | error e => exact ⟨e, rfl⟩
  | ok u =>
    cases hweapons : sweep.weapons with
    | some ids =>
      rw [hweapons] at h
      exact absurd ⟨hvalid, ids, rfl⟩ h
    | none =>
      rw [hweapons] at h
      cases hids : s.weaponIds with
      | error e =>
        refine ⟨e, ?_⟩
        simp only [bind, Except.bind]
      | ok ids => exact absurd ⟨hvalid, ids, hids⟩ h

/-! ### All or nothing -/

/-- Jobs of one priority stand in turn behind those that were there. -/
theorem inTurn_append {jobs : List Job} (htable : s.JobTable (rows ++ jobs.map Job.row))
    (hprio : ∀ job ∈ jobs, job.priority = priority)
    (htimes : (jobs.map Job.createdAt).Pairwise (· ≤ ·)) : s.InTurn (jobs.map Job.id) where
  known id hid := by
    obtain ⟨job, hjob, rfl⟩ := List.mem_map.mp hid
    rw [htable.jobRows_eq]
    exact List.mem_map.mpr ⟨job.row, List.mem_append_right _ (List.mem_map_of_mem hjob), rfl⟩
  before := by
    have hstands : ∀ (i : Nat) (hi : i < jobs.length),
        (rows ++ jobs.map Job.row)[rows.length + i]? = some jobs[i].row := by
      intro i hi
      rw [List.getElem?_append_right (Nat.le_add_right _ _), Nat.add_sub_cancel_left,
        List.getElem?_map, List.getElem?_eq_getElem hi]
      rfl
    rw [List.pairwise_map] at htimes ⊢
    rw [List.pairwise_iff_getElem] at htimes ⊢
    intro i j hi hj hij k l row other hrow hother hid hid'
    rw [htable.jobRows_eq] at hrow hother
    -- The ids are keys, so these rows are where the jobs were entered.
    obtain rfl := htable.position_unique (hstands i hi) hrow hid
    obtain rfl := Option.some.inj ((hstands i hi).symm.trans hrow)
    obtain rfl := htable.position_unique (hstands j hj) hother hid'
    obtain rfl := Option.some.inj ((hstands j hj).symm.trans hother)
    have hsame : jobs[i].priority = jobs[j].priority :=
      (hprio _ (List.getElem_mem hi)).trans (hprio _ (List.getElem_mem hj)).symm
    refine .inr ⟨hsame, ?_⟩
    by_cases hlt : jobs[i].createdAt < jobs[j].createdAt
    · exact .inl hlt
    · have heq := String.le_antisymm (htimes i j hi hj hij) (String.not_lt.mp hlt)
      exact .inr ⟨heq, Nat.add_lt_add_left hij _⟩

/-- The jobs were entered, in this order, behind those that were there, and nothing else happened.
If the times did not decrease then they are claimed in this order among themselves. -/
structure Enters (s s' : Store) (jobs : List Job) : Prop where
  rows : s'.jobRows = s.jobRows ++ jobs.map Job.row
  jobs_isSome : s'.jobs.isSome = s.jobs.isSome
  others : ∀ t ≠ .jobs, s'.rows? t = s.rows? t
  inTurn : (jobs.map Job.createdAt).Pairwise (· ≤ ·) → ∀ calls,
    ((QueueCall.claims calls s').filter fun id => id ∈ jobs.map Job.id).Sublist (jobs.map Job.id)

/-- A sweep answers the ids of all its jobs, which were entered, or it fails and changes nothing. -/
inductive AllOrNothing (sweep : Sweep) (moments : Nat → Moment) (s : Store) :
    Except StoreError (List String) × Store → Prop
  | all {weapons : List String} {s' : Store} (hcovered : sweep.covered s = .ok weapons)
    (henters : Enters s s' (sweep.jobs moments weapons)) :
    AllOrNothing sweep moments s (.ok ((sweep.jobs moments weapons).map Job.id), s')
  | nothing (e : StoreError) : AllOrNothing sweep moments s (.error e, s)

/-- Jobs that were entered at new ids stand in a table with keys. -/
theorem nodup_ids (hids : (s.jobRows.map JobRow.id).Nodup) (hfresh : FreshJobs moments s)
    (priority : Int) (requests : List Request) :
    ((s.jobRows ++ (entries priority moments requests).map Job.row).map JobRow.id).Nodup := by
  have hmap : ((entries priority moments requests).map Job.row).map JobRow.id =
      (List.range requests.length).map fun i => (moments i).fresh := by
    rw [List.map_map]
    refine List.ext_getElem ?_ fun i hi hi' => ?_
    · rw [List.length_map, List.length_map, List.length_range, entries, List.length_mapIdx]
    · simp only [List.getElem_map, List.getElem_range, entries, List.getElem_mapIdx]
      rfl
  rw [List.map_append, hmap]
  refine List.nodup_append.mpr ⟨hids, ?_, ?_⟩
  · exact List.nodup_range.map fun i j hij => hfresh.distinct i j hij
  · rintro id hid _ hid' rfl
    obtain ⟨i, -, rfl⟩ := List.mem_map.mp hid'
    exact hfresh.unused i hid

/-- A sweep without any request answers no id and changes nothing. -/
theorem enters_nil (s : Store) : Enters s s [] where
  rows := (List.append_nil _).symm
  jobs_isSome := rfl
  others _ _ := rfl
  inTurn _ calls := by
    rw [List.filter_eq_nil_iff.mpr fun id _ => by simp]
    exact List.nil_sublist _

theorem priority_entries {job : Job} (h : job ∈ entries priority moments requests) :
    job.priority = priority := by
  obtain ⟨i, hi, rfl⟩ := List.mem_mapIdx.mp h
  rfl

/-- The jobs are entered as one. -/
theorem enters_entries (hids : (s.jobRows.map JobRow.id).Nodup) (hfresh : FreshJobs moments s)
    (h : s.jobs = some rows) (priority : Int) (requests : List Request) :
    Enters s (s.put .jobs (some (rows ++ (entries priority moments requests).map Job.row)))
      (entries priority moments requests) := by
  have hrows : s.jobRows = rows := by rw [Store.jobRows, h, Option.getD_some]
  have hnodup := nodup_ids hids hfresh priority requests
  rw [hrows] at hnodup
  have htable := Store.JobTable.mk (s := s.put .jobs _) rfl hnodup
  exact {
    rows := by rw [hrows]; rfl
    jobs_isSome := by rw [h]; rfl
    others := fun t ht => s.rows?_put_of_ne (Ne.symm ht) _
    inTurn := fun htimes calls =>
      (inTurn_append htable (fun _ => priority_entries) htimes).claims_sublist htable.self calls }

/-- **All or nothing**: whatever the store holds, a sweep enters one job for every combination of
weapon, stat and profile, in this order, or it fails and changes nothing, if no blank name stands
behind another one. -/
theorem allOrNothing (sweep : Sweep) {moments : Nat → Moment} {s : Store}
    (hids : (s.jobRows.map JobRow.id).Nodup) (hfresh : FreshJobs moments s)
    (hblank : ∀ weapons, sweep.covered s = .ok weapons → BlankFirst weapons) :
    AllOrNothing sweep moments s (sweep.enqueueAll moments s) := by
  by_cases hbegins : sweep.validate = .ok () ∧ ∃ weapons, sweep.covered s = .ok weapons
  swap
  · obtain ⟨e, he⟩ := enqueueAll_of_invalid hbegins moments
    rw [he]
    exact .nothing e
  obtain ⟨hvalid, weapons, hcovered⟩ := hbegins
  have haccepted := validate_requests hvalid weapons
  rw [enqueueAll_of_valid hvalid hcovered]
  by_cases hrequests : sweep.requests weapons = []
  · -- The names are looked at in requests only.
    have hjobs : sweep.jobs moments weapons = [] := by
      rw [jobs, hrequests]
      rfl
    have hall : AllOrNothing sweep moments s (.ok ((sweep.jobs moments weapons).map Job.id), s) :=
      .all hcovered (hjobs ▸ enters_nil s)
    rw [hjobs] at hall
    rw [hrequests]
    exact hall
  cases hjobs : s.jobs with
  | none =>
    obtain ⟨e, he⟩ := enter_of_missing hjobs sweep.priority moments hrequests
    rw [he]
    exact .nothing e
  | some rows =>
    by_cases hnames : ∀ weapon ∈ weapons, Text.isAllBlank weapon = false
    · -- Every request names an item, so nothing stops the sweep.
      have hall := all_named sweep hnames
      rw [enter_eq hjobs hfresh haccepted, if_pos hall,
        List.takeWhile_eq_self_iff.mpr (List.all_eq_true.mp hall)]
      exact .all hcovered (enters_entries hids hfresh hjobs _ _)
    · -- Some name is blank, hence the first, and the sweep stops before anything is entered.
      obtain ⟨weapon, hfirst, hweapon⟩ := hblank weapons hcovered (by simpa using hnames)
      obtain ⟨later, rfl⟩ := List.head?_eq_some_iff.mp hfirst
      obtain ⟨r, rest, hcons, rfl⟩ := (requests_head sweep weapon later).resolve_left hrequests
      rw [hcons] at haccepted ⊢
      rw [enter_of_blank (haccepted r List.mem_cons_self) (congrArg not hweapon)]
      exact .nothing _

/-- A blank name behind others ends the sweep, and **their jobs stay**. -/
theorem enqueueAll_of_blank {before later : List String} {blank : String} (h : s.jobs = some rows)
    (hfresh : FreshJobs moments s) (hvalid : sweep.validate = .ok ()) (hstats : sweep.stats ≠ [])
    (hprofiles : sweep.profiles ≠ []) (hcovered : sweep.covered s = .ok (before ++ blank :: later))
    (hbefore : ∀ weapon ∈ before, Text.isAllBlank weapon = false)
    (hblank : Text.isAllBlank blank = true) :
    sweep.enqueueAll moments s =
      (.error (.badField "item_id" "不能为空"),
        s.put .jobs (some (rows ++ (sweep.jobs moments before).map Job.row))) := by
  have hnone := takeWhile_named_of_blank sweep hblank later
  have hall := all_named sweep hbefore
  have hrequest : ∃ r ∈ sweep.requests (blank :: later), Named r = false := by
    obtain ⟨stat, stats, hstats⟩ := List.exists_cons_of_ne_nil hstats
    obtain ⟨profile, profiles, hprofiles⟩ := List.exists_cons_of_ne_nil hprofiles
    refine ⟨(blank, stat, .ofLevels profile), ?_, congrArg not hblank⟩
    rw [requests, hstats, hprofiles]
    exact List.mem_cons_self
  have hnot : ¬ (sweep.requests (before ++ blank :: later)).all Named = true := by
    obtain ⟨r, hr, hnamed⟩ := hrequest
    intro hevery
    rw [requests_append] at hevery
    have htrue := List.all_eq_true.mp hevery r (List.mem_append_right _ hr)
    rw [hnamed] at htrue
    exact Bool.false_ne_true htrue
  rw [enqueueAll_of_valid hvalid hcovered, enter_eq h hfresh (validate_requests hvalid _),
    if_neg hnot, requests_append, List.takeWhile_append_of_pos (List.all_eq_true.mp hall), hnone,
    List.append_nil]
  rfl

/-- A sweep that fails after it has entered jobs is not all or nothing. -/
theorem not_allOrNothing_of_entered {jobs : List Job} (h : s.jobs = some rows) (hjobs : jobs ≠ [])
    (e : StoreError) :
    ¬ AllOrNothing sweep moments s (.error e, s.put .jobs (some (rows ++ jobs.map Job.row))) := by
  intro hall
  -- A sweep that fails would have to leave the store as it was.
  have hsame : s.put .jobs (some (rows ++ jobs.map Job.row)) = s := by
    generalize s.put .jobs (some (rows ++ jobs.map Job.row)) = s' at hall
    cases hall with
    | nothing => rfl
  have hrows : some (rows ++ jobs.map Job.row) = some rows := (congrArg Store.jobs hsame).trans h
  rw [Option.some.injEq, List.append_right_eq_self] at hrows
  exact hjobs (List.map_eq_nil_iff.mp hrows)

/-- A sweep over some weapons for two stats at the highest levels. -/
def sample (weapons : List String) : Sweep :=
  ⟨some weapons, [.recoil, .ergonomics], [.uniform 4], 5⟩

/-- Moments with ids of growing length. -/
def sampleMoments (i : Nat) : Moment := ⟨"1", String.ofList (List.replicate i 'j')⟩

theorem freshJobs_sampleMoments {s : Store} (h : s.jobRows = []) : FreshJobs sampleMoments s where
  unused i := by
    rw [h]
    exact List.not_mem_nil
  distinct i j hij := by
    have hlength := congrArg (fun text : String => text.toList.length) hij
    simpa [sampleMoments] using hlength

/-- A blank name behind another one leaves the jobs of that one behind. -/
theorem not_allOrNothing_sample :
    ¬ AllOrNothing (sample ["a", " "]) sampleMoments Store.fresh
      ((sample ["a", " "]).enqueueAll sampleMoments Store.fresh) := by
  have hcovered : (sample ["a", " "]).covered Store.fresh = .ok (["a"] ++ " " :: []) := rfl
  have hrun := enqueueAll_of_blank rfl (freshJobs_sampleMoments rfl) rfl (List.cons_ne_nil _ _)
    (List.cons_ne_nil _ _) hcovered (by decide) (by decide)
  rw [hrun]
  exact not_allOrNothing_of_entered rfl (by decide) _

theorem allOrNothing_sample :
    ((sample ["a", "b"]).enqueueAll sampleMoments Store.fresh).1 = .ok ["", "j", "jj", "jjj"] ∧
      AllOrNothing (sample ["a", "b"]) sampleMoments Store.fresh
        ((sample ["a", "b"]).enqueueAll sampleMoments Store.fresh) := by
  refine ⟨rfl, allOrNothing _ List.nodup_nil (freshJobs_sampleMoments rfl) ?_⟩
  intro weapons hcovered hblank
  rw [← Except.ok.inj hcovered] at hblank
  exact absurd hblank (by decide)

end Sweep

end Gunsmith
