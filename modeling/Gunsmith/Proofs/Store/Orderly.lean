/-
  The store as this library leaves it.

  Other programs may write into the tables, but as long as they do not, the tables of jobs,
  builds and subtrees hold only rows of records, jobs and builds have ids without
  repetition, and there is one build for a request (`Store.Orderly`).  In an orderly store
  no look-up fails, and what is found is sound: a completed build has a result, and a kept
  result is one for the item and the stat that it was looked for.
-/
import Gunsmith.Proofs.Store.Records
import Gunsmith.Store.Schema

namespace Gunsmith

/-! ### Orderly stores -/

/-- Jobs as they are left. -/
structure JobRow.Orderly (rows : List JobRow) : Prop where
  written : Written Job.row Job.Sound rows
  ids : (rows.map JobRow.id).Nodup

/-- Builds as they are left. -/
structure BuildRow.Orderly (rows : List BuildRow) : Prop where
  written : Written BuildRecord.row BuildRecord.Sound rows
  ids : (rows.map BuildRow.id).Nodup
  keys : (rows.map BuildRow.key).Nodup

/-- A store as this library leaves it. -/
structure Store.Orderly (s : Store) : Prop where
  jobs : ∃ rows, s.jobs = some rows ∧ JobRow.Orderly rows
  builds : ∃ rows, s.builds = some rows ∧ BuildRow.Orderly rows
  subtrees : ∃ rows, s.subtrees = some rows ∧ Written SubtreeEntry.row SubtreeEntry.Sound rows

namespace Store

variable {s s' : Store} {id itemId version : String} {stat : Stat} {c : Constraints} {depth : Nat}

/-- A store is orderly if its jobs, builds and subtrees are those of an orderly store. -/
theorem Orderly.congr (h : s.Orderly) (hjobs : s'.jobs = s.jobs) (hbuilds : s'.builds = s.builds)
    (hsubtrees : s'.subtrees = s.subtrees) : s'.Orderly :=
  ⟨hjobs ▸ h.jobs, hbuilds ▸ h.builds, hsubtrees ▸ h.subtrees⟩

/-- A store set up from nothing is orderly. -/
theorem orderly_fresh : fresh.Orderly where
  jobs := ⟨[], rfl, fun _ h => absurd h List.not_mem_nil, List.nodup_nil⟩
  builds := ⟨[], rfl, fun _ h => absurd h List.not_mem_nil, List.nodup_nil, List.nodup_nil⟩
  subtrees := ⟨[], rfl, fun _ h => absurd h List.not_mem_nil⟩

/-- The ids of the stored builds. -/
def buildIds (s : Store) : List String := (s.builds.getD []).map BuildRow.id

theorem buildIds_eq {rows : List BuildRow} (h : s.builds = some rows) :
    s.buildIds = rows.map BuildRow.id := by
  rw [buildIds, h]
  rfl

/-- The jobs other than the one with an id. -/
def otherJobs (s : Store) (id : String) : Option (List JobRow) :=
  s.jobs.map fun rows => rows.filter fun row => !decide (row.id = id)

/-- The builds for other requests. -/
def otherBuilds (s : Store) (key : BuildKey) : Option (List BuildRow) :=
  s.builds.map fun rows => rows.filter fun row => !decide (row.key = key)

/-- The results kept for other requests. -/
def otherSubtrees (s : Store) (itemId : String) (stat : Stat) (c : Constraints)
    (version : String) : Option (List SubtreeRow) :=
  s.subtrees.map fun rows => rows.filter fun row => !decide (row.Matches itemId stat c version)

/-! ### Looking -/

theorem job?_eq {rows : List JobRow} (h : s.jobs = some rows) :
    s.job? id =
      match rows.find? fun row => row.id = id with
      | none => .ok none
      | some row => row.job.map some := by
  have hrows : s.rows .jobs = .ok rows := rows_eq h
  rw [job?, hrows]
  show (match rows.find? fun row => row.id = id with | none => _ | some row => _) = _
  cases rows.find? fun row => row.id = id with
  | none => rfl
  | some row => cases hrow : row.job <;> (simp only [hrow]; rfl)

/-- A job is found if its row is. -/
theorem job?_eq_some {rows : List JobRow} (h : s.jobs = some rows) (ho : JobRow.Orderly rows)
    {job : Job} :
    s.job? id = .ok (some job) ↔
      job.Sound ∧ rows.find? (fun row => row.id = id) = some job.row := by
  rw [job?_eq h]
  constructor
  · intro hjob
    cases hfind : rows.find? fun row => row.id = id with
    | none =>
      rw [hfind] at hjob
      exact absurd hjob nofun
    | some row =>
      obtain ⟨j, hj, rfl⟩ := ho.written.find? hfind
      rw [hfind] at hjob
      simp only [Job.job_row hj] at hjob
      obtain rfl := Option.some.inj (Except.ok.inj hjob)
      exact ⟨hj, rfl⟩
  · rintro ⟨hj, hfind⟩
    rw [hfind]
    simp only [Job.job_row hj]
    rfl

/-- In an orderly store a job that is found is sound. -/
theorem Orderly.sound_of_job? (h : s.Orderly) {job : Job} (hjob : s.job? id = .ok (some job)) :
    job.Sound := by
  obtain ⟨rows, hrows, ho⟩ := h.jobs
  exact ((job?_eq_some hrows ho).mp hjob).1

theorem findBuild_eq {rows : List BuildRow} (h : s.builds = some rows) :
    s.findBuild itemId stat c version =
      match rows.find? fun row => row.key = .of itemId stat c version with
      | none => .ok none
      | some row => row.build.map some := by
  have hrows : s.rows .builds = .ok rows := rows_eq h
  rw [findBuild, hrows]
  show (match rows.find? fun row => row.key = .of itemId stat c version with
    | none => _ | some row => _) = _
  cases rows.find? fun row => row.key = .of itemId stat c version with
  | none => rfl
  | some row => cases hrow : row.build <;> (simp only [hrow]; rfl)

/-- A build is found if its row is. -/
theorem findBuild_eq_some {rows : List BuildRow} (h : s.builds = some rows)
    (ho : BuildRow.Orderly rows) {b : BuildRecord} :
    s.findBuild itemId stat c version = .ok (some b) ↔
      b.Sound ∧ rows.find? (fun row => row.key = .of itemId stat c version) = some b.row := by
  rw [findBuild_eq h]
  constructor
  · intro hbuild
    cases hfind : rows.find? fun row => row.key = .of itemId stat c version with
    | none =>
      rw [hfind] at hbuild
      exact absurd hbuild nofun
    | some row =>
      obtain ⟨b', hb, rfl⟩ := ho.written.find? hfind
      rw [hfind] at hbuild
      simp only [BuildRecord.build_row hb] at hbuild
      obtain rfl := Option.some.inj (Except.ok.inj hbuild)
      exact ⟨hb, rfl⟩
  · rintro ⟨hb, hfind⟩
    rw [hfind]
    simp only [BuildRecord.build_row hb]
    rfl

/-- In an orderly store a look-up of a build does not fail. -/
theorem Orderly.findBuild (h : s.Orderly) (itemId : String) (stat : Stat) (c : Constraints)
    (version : String) :
    ∃ found, s.findBuild itemId stat c version = .ok found ∧ ∀ b ∈ found, b.Sound := by
  obtain ⟨rows, hrows, ho⟩ := h.builds
  cases hfind : rows.find? fun row => row.key = .of itemId stat c version with
  | none =>
    refine ⟨none, ?_, fun b hb => absurd hb nofun⟩
    rw [findBuild_eq hrows, hfind]
  | some row =>
    obtain ⟨b, hb, rfl⟩ := ho.written.find? hfind
    refine ⟨some b, (findBuild_eq_some hrows ho).mpr ⟨hb, hfind⟩, fun b' hb' => ?_⟩
    obtain rfl := Option.some.inj hb'
    exact hb

theorem completedBuild_eq {found : Option BuildRecord}
    (h : s.findBuild itemId stat c version = .ok found) :
    s.completedBuild itemId stat c version =
      .ok (found.filter fun build => build.status = .completed) := by
  rw [completedBuild, h]
  rfl

/-- In an orderly store a look-up of a completed build does not fail, and what it finds has a
result. -/
theorem Orderly.completedBuild (h : s.Orderly) (itemId : String) (stat : Stat) (c : Constraints)
    (version : String) :
    ∃ found, s.completedBuild itemId stat c version = .ok found ∧
      ∀ b ∈ found, b.status = .completed ∧ b.result.isSome := by
  obtain ⟨found, hfound, hsound⟩ := h.findBuild itemId stat c version
  refine ⟨_, completedBuild_eq hfound, fun b hb => ?_⟩
  obtain ⟨hb, hstatus⟩ := Option.mem_filter_iff.mp hb
  have hstatus := of_decide_eq_true hstatus
  exact ⟨hstatus, (hsound b hb).completed hstatus⟩

theorem subtree?_eq {rows : List SubtreeRow} (h : s.subtrees = some rows) :
    s.subtree? itemId stat c version depth =
      match rows.find? fun row =>
        row.Matches itemId stat c version ∧ (depth : Int) ≤ row.depth with
      | none => .ok none
      | some row => row.content.map fun (found, result) =>
          some ⟨itemId, stat, c, version, found, result⟩ := by
  have hrows : s.rows .subtrees = .ok rows := rows_eq h
  rw [subtree?, hrows]
  show (match rows.find? fun row =>
      row.Matches itemId stat c version ∧ (depth : Int) ≤ row.depth with
    | none => _ | some row => _) = _
  cases rows.find? fun row => row.Matches itemId stat c version ∧ (depth : Int) ≤ row.depth with
  | none => rfl
  | some row => cases hrow : row.content <;> (simp only [hrow]; rfl)

/-- A kept result is found if a row for the request reaches the depth. -/
theorem subtree?_of_find? {rows : List SubtreeRow} (h : s.subtrees = some rows)
    (ho : Written SubtreeEntry.row SubtreeEntry.Sound rows) {row : SubtreeRow}
    (hfind : rows.find? (fun row =>
      row.Matches itemId stat c version ∧ (depth : Int) ≤ row.depth) = some row) :
    ∃ e, s.subtree? itemId stat c version depth = .ok (some e) ∧
      e.result.Answers itemId stat ∧ depth ≤ e.depth := by
  obtain ⟨e, he, rfl⟩ := ho.find? hfind
  have hrow := List.find?_some hfind
  obtain ⟨⟨hitem, hstat, -, -⟩, hdepth⟩ := of_decide_eq_true hrow
  refine ⟨⟨itemId, stat, c, version, e.depth, e.result⟩, ?_, ?_, Int.ofNat_le.mp hdepth⟩
  · rw [subtree?_eq h, hfind]
    simp only [SubtreeEntry.content_row he.depth he.answers.fit]
    rfl
  · obtain rfl : e.itemId = itemId := hitem
    obtain rfl : e.stat = stat := hstat
    exact he.answers

/-- In an orderly store a look-up of a kept result does not fail, and what it finds is one for the
item and the stat that reaches the depth. -/
theorem Orderly.subtree? (h : s.Orderly) (itemId : String) (stat : Stat) (c : Constraints)
    (version : String) (depth : Nat) :
    ∃ found, s.subtree? itemId stat c version depth = .ok found ∧
      ∀ e ∈ found, e.result.Answers itemId stat ∧ depth ≤ e.depth := by
  obtain ⟨rows, hrows, ho⟩ := h.subtrees
  cases hfind : rows.find? fun row =>
      row.Matches itemId stat c version ∧ (depth : Int) ≤ row.depth with
  | none =>
    refine ⟨none, ?_, fun e he => absurd he nofun⟩
    rw [subtree?_eq hrows, hfind]
  | some row =>
    obtain ⟨e, he, hanswers⟩ := subtree?_of_find? hrows ho hfind
    refine ⟨some e, he, fun e' he' => ?_⟩
    obtain rfl := Option.some.inj he'
    exact hanswers

/-! ### What a look-up reads -/

/-- A look-up of a job reads the jobs only. -/
theorem job?_congr (h : s'.rows? .jobs = s.rows? .jobs) : s'.job? id = s.job? id := by
  rw [job?, job?, rows, rows, h]

/-- A look-up of a build reads the builds only. -/
theorem findBuild_congr (h : s'.rows? .builds = s.rows? .builds) :
    s'.findBuild itemId stat c version = s.findBuild itemId stat c version := by
  rw [findBuild, findBuild, rows, rows, h]

theorem completedBuild_congr (h : s'.rows? .builds = s.rows? .builds) :
    s'.completedBuild itemId stat c version = s.completedBuild itemId stat c version := by
  rw [completedBuild, completedBuild, findBuild_congr h]

/-- A look-up of a kept result reads the kept results only. -/
theorem subtree?_congr (h : s'.rows? .subtrees = s.rows? .subtrees) :
    s'.subtree? itemId stat c version depth = s.subtree? itemId stat c version depth := by
  rw [subtree?, subtree?, rows, rows, h]

theorem otherJobs_congr (h : s'.rows? .jobs = s.rows? .jobs) :
    s'.otherJobs id = s.otherJobs id := by
  have h : s'.jobs = s.jobs := h
  rw [otherJobs, otherJobs, h]

theorem otherBuilds_congr {key : BuildKey} (h : s'.rows? .builds = s.rows? .builds) :
    s'.otherBuilds key = s.otherBuilds key := by
  have h : s'.builds = s.builds := h
  rw [otherBuilds, otherBuilds, h]

theorem otherSubtrees_congr (h : s'.rows? .subtrees = s.rows? .subtrees) :
    s'.otherSubtrees itemId stat c version = s.otherSubtrees itemId stat c version := by
  have h : s'.subtrees = s.subtrees := h
  rw [otherSubtrees, otherSubtrees, h]

theorem buildIds_congr (h : s'.rows? .builds = s.rows? .builds) : s'.buildIds = s.buildIds := by
  have h : s'.builds = s.builds := h
  rw [buildIds, buildIds, h]
end Store

end Gunsmith
