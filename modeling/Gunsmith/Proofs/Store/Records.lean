/-
  Rows that hold records.

  A row of jobs, builds or subtrees holds texts, and may fail to decode.  A row that this
  library wrote does not: it is the written form of a record (`Job.row`, `BuildRecord.row`,
  `SubtreeEntry.row`), and reading it gives the record back, if the record is one that the
  library writes (`Sound`).  A table is written (`Written`) if all of its rows are; the two
  ways to write rows keep it so.
-/
import Gunsmith.Proofs.Json.Forms
import Gunsmith.Proofs.Json.RoundTrip
import Gunsmith.Proofs.Store.Tables
import Gunsmith.Store.Builds
import Gunsmith.Store.Subtrees

namespace Gunsmith

/-! ### Columns -/

theorem Stat.parse_name (stat : Stat) : Stat.parse stat.name = .ok stat := by
  cases stat <;> rfl

theorem Stat.name_injective {a b : Stat} (h : a.name = b.name) : a = b := by
  have hparse : Stat.parse a.name = Stat.parse b.name := congrArg Stat.parse h
  rw [parse_name, parse_name] at hparse
  exact Except.ok.inj hparse

theorem JobStatus.parse_keyword (status : JobStatus) :
    JobStatus.parse status.keyword = .ok status := by
  cases status <;> rfl

theorem JobStatus.keyword_injective {a b : JobStatus} (h : a.keyword = b.keyword) : a = b := by
  have hparse : JobStatus.parse a.keyword = JobStatus.parse b.keyword :=
    congrArg JobStatus.parse h
  rw [parse_keyword, parse_keyword] at hparse
  exact Except.ok.inj hparse

theorem BuildStatus.parse_keyword (status : BuildStatus) :
    BuildStatus.parse status.keyword = .ok status := by
  cases status <;> rfl

/-- A column with a JSON text that was written is read. -/
theorem Column.json_print {α : Type} (index : Nat) {read : Json → Option α} {v : Json} {a : α}
    (h : read v = some a) : Column.json index read v.print = .ok a := by
  rw [Column.json, Json.read_print, Option.bind_some, h]

/-! ### Records -/

/-- A job as it is written: its constraints were accepted, and only a failed job has an error. -/
structure Job.Sound (j : Job) : Prop where
  accepted : j.constraints.validate = .ok ()
  error : j.status ≠ .failed → j.error = none

/-- A job that is in one of some states has no error, if none of them is that of a failure. -/
theorem Job.Sound.error_of_mem {j : Job} (h : j.Sound) {sources : List JobStatus}
    (hstatus : j.status ∈ sources) (hfailed : .failed ∉ sources) : j.error = none :=
  h.error fun hstate => hfailed (hstate ▸ hstatus)

/-- The row of a job. -/
def Job.row (j : Job) : JobRow where
  id := j.id
  itemId := j.itemId
  stat := j.stat.name
  constraints := j.constraints.toJson.print
  priority := j.priority
  status := j.status.keyword
  createdAt := j.createdAt
  startedAt := j.startedAt
  completedAt := j.completedAt
  error := j.error

theorem Job.job_row {j : Job} (h : j.Sound) : j.row.job = .ok j := by
  have hconstraints : Column.json 3 Constraints.ofJson? j.constraints.toJson.print =
      .ok j.constraints := Column.json_print 3 (Constraints.ofJson?_toJson h.accepted)
  simp only [JobRow.job, row, Stat.parse_name, JobStatus.parse_keyword, hconstraints, Column.parse,
    Except.mapError]
  rfl

/-- The build is one of the item for the stat, with sums that fit 64 bits. -/
structure BuildResult.Answers (r : BuildResult) (itemId : String) (stat : Stat) : Prop where
  itemId : r.itemId = itemId
  stat : r.stat = stat
  fit : r.sums.Fit

/-- A stored build as it is written: its constraints were accepted, a result is one for its item and
stat, and a completed build has one. -/
structure BuildRecord.Sound (b : BuildRecord) : Prop where
  accepted : b.constraints.validate = .ok ()
  answers : ∀ r, b.result = some r → r.Answers b.itemId b.stat
  completed : b.status = .completed → b.result.isSome

/-- The row of a stored build. -/
def BuildRecord.row (b : BuildRecord) : BuildRow where
  id := b.id
  itemId := b.itemId
  stat := b.stat.name
  constraintsKey := b.constraints.key
  version := b.version
  constraints := b.constraints.toJson.print
  status := b.status.keyword
  result := b.result.map fun r => r.toJson.print
  error := b.error
  createdAt := b.createdAt
  updatedAt := b.updatedAt

/-- A row is read off its columns, if its result was written. -/
theorem BuildRow.build_eq {row : BuildRow} {stat : Stat} {c : Constraints} {status : BuildStatus}
    {result : Option BuildResult} (hstat : row.stat = stat.name)
    (hconstraints : Column.json 4 Constraints.ofJson? row.constraints = .ok c)
    (hstatus : row.status = status.keyword)
    (hresult : row.result = result.map fun r => r.toJson.print)
    (hfit : ∀ r, result = some r → r.sums.Fit) :
    row.build = .ok ⟨row.id, row.itemId, stat, row.version, c, status, result, row.error,
      row.createdAt, row.updatedAt⟩ := by
  cases result with
  | none =>
    simp only [BuildRow.build, hstat, Stat.parse_name, hstatus, BuildStatus.parse_keyword,
      hconstraints, hresult, Column.parse, Except.mapError, Option.map_none]
    rfl
  | some r =>
    have hread : Column.json 6 BuildResult.ofJson? r.toJson.print = .ok r :=
      Column.json_print 6 (BuildResult.ofJson?_toJson (hfit r rfl))
    simp only [BuildRow.build, hstat, Stat.parse_name, hstatus, BuildStatus.parse_keyword,
      hconstraints, hresult, hread, Column.parse, Except.mapError, Option.map_some]
    rfl

theorem BuildRecord.build_row {b : BuildRecord} (h : b.Sound) : b.row.build = .ok b :=
  BuildRow.build_eq rfl (Column.json_print 4 (Constraints.ofJson?_toJson h.accepted)) rfl rfl
    fun r hr => (h.answers r hr).fit

/-- A kept result as it is written: its depth is one there is, and the result is one for the item
and the stat. -/
structure SubtreeEntry.Sound (e : SubtreeEntry) : Prop where
  depth : e.depth ≤ maxDepth
  answers : e.result.Answers e.itemId e.stat

/-- The row of a kept result. -/
def SubtreeEntry.row (e : SubtreeEntry) : SubtreeRow :=
  ⟨e.itemId, e.stat, e.constraints.key, e.version, e.depth, e.result.toJson.print⟩

theorem SubtreeEntry.content_row {e : SubtreeEntry} (hdepth : e.depth ≤ maxDepth)
    (hfit : e.result.sums.Fit) : e.row.content = .ok (e.depth, e.result) := by
  have hresult : Column.json 1 BuildResult.ofJson? e.result.toJson.print = .ok e.result :=
    Column.json_print 1 (BuildResult.ofJson?_toJson hfit)
  have hrange : ¬ ((e.depth : Int) < 0 ∨ (maxDepth : Int) < e.depth) := by omega
  simp only [SubtreeRow.content, row, hrange, if_false, hresult, Int.toNat_natCast]
  rfl

/-! ### Tables of written rows -/

section Written

variable {Record Row : Type} {row : Record → Row} {sound : Record → Prop} {rows : List Row}

/-- Every row is the written form of a record. -/
def Written (row : Record → Row) (sound : Record → Prop) (rows : List Row) : Prop :=
  ∀ r ∈ rows, ∃ a, sound a ∧ row a = r

theorem Written.append_singleton (h : Written row sound rows) {a : Record} (ha : sound a) :
    Written row sound (rows ++ [row a]) := by
  intro r hr
  rcases List.mem_append.mp hr with hr | hr
  · exact h r hr
  · exact ⟨a, ha, (List.mem_singleton.mp hr).symm⟩

/-- A change or an addition keeps a table written, if it is one of records. -/
theorem Written.upsertRow (h : Written row sound rows) {hasKey : Row → Bool} {change : Row → Row}
    {fresh : Record} (hfresh : sound fresh)
    (hchange : ∀ a, sound a → hasKey (row a) = true → ∃ b, sound b ∧ row b = change (row a)) :
    Written row sound (upsertRow hasKey change (row fresh) rows) := by
  intro r hr
  rcases mem_upsertRow hr with hr | ⟨old, hold, hkey, rfl⟩ | rfl
  · exact h r hr
  · obtain ⟨a, ha, rfl⟩ := h old hold
    exact hchange a ha hkey
  · exact ⟨fresh, hfresh, rfl⟩

/-- Changes keep a table written, if they are changes of records. -/
theorem Written.updateRows (h : Written row sound rows) {applies : Row → Bool}
    {change : Row → Row}
    (hchange : ∀ a, sound a → applies (row a) = true → ∃ b, sound b ∧ row b = change (row a)) :
    Written row sound (updateRows applies change rows).1 := by
  intro r hr
  rcases mem_updateRows hr with hr | ⟨old, hold, happlies, rfl⟩
  · exact h r hr
  · obtain ⟨a, ha, rfl⟩ := h old hold
    exact hchange a ha happlies

/-- What is found in a written table is the row of a record. -/
theorem Written.find? (h : Written row sound rows) {sought : Row → Bool} {r : Row}
    (hfind : rows.find? sought = some r) : ∃ a, sound a ∧ row a = r :=
  h r (List.mem_of_find?_eq_some hfind)

end Written

end Gunsmith
