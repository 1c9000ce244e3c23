/-
  What setting up the tables leaves of a store.

  Setting up drops what an older layout identifies differently, makes every table that is
  missing, and records the version of the layout.  Each of these says of every table what
  becomes of its rows (`rows?_migrate`, `rows?_foldl_createTable`, `rows?_recordVersion`), and
  so does the whole (`rows?_ensureSchema`, `versions_ensureSchema`).

  The version is recorded only after the older rows were dropped, and what is recorded is at
  least 2.  So builds and isolated solutions are dropped at most once, nothing else ever is
  (`SetUpFrom`), and a store that was set up is left alone (`ensureSchema_setUp`).
-/
import Gunsmith.Store.Schema
import Mathlib.Data.List.MinMax

namespace Gunsmith

namespace Store

variable {s : Store} {t : Table}

/-! ### The stages -/

/-- The tables that the migration may drop: what they hold can be computed again. -/
def recomputable : List Table :=
  [.builds, .isolated]

/-- The migration is due if the largest version recorded is below 2. -/
def Outdated (s : Store) : Prop :=
  ∃ v, s.schemaVersion = some v ∧ v < 2

/-- A store is not outdated if no version below 2 is the largest one recorded, as when none is. -/
theorem not_outdated (h : ∀ v, s.schemaVersion = some v → 2 ≤ v) : ¬ s.Outdated := by
  rintro ⟨v, hv, hlt⟩
  have hle := h v hv
  omega

theorem migrate_of_outdated (h : s.Outdated) :
    s.migrate = { s with builds := none, isolated := none } := by
  obtain ⟨v, hv, hlt⟩ := h
  simp only [migrate, hv, if_pos hlt]

theorem migrate_of_not_outdated (h : ¬ s.Outdated) : s.migrate = s := by
  rw [migrate]
  split
  · next v hv => exact if_neg fun hlt => h ⟨v, hv, hlt⟩
  · rfl

/-- The migration touches the recomputable tables only. -/
theorem rows?_migrate (h : t ∉ recomputable) : s.migrate.rows? t = s.rows? t := by
  by_cases hold : s.Outdated
  · rw [migrate_of_outdated hold]
    cases t <;> first | rfl | exact absurd (by decide) h
  · rw [migrate_of_not_outdated hold]

/-- An outdated store loses them. -/
theorem rows?_migrate_of_outdated (hold : s.Outdated) (h : t ∈ recomputable) :
    s.migrate.rows? t = none := by
  rw [migrate_of_outdated hold]
  cases t <;> first | rfl | exact absurd h (by decide)

theorem rows?_createTable (s : Store) (t u : Table) :
    (s.createTable t).rows? u = if u = t then some ((s.rows? u).getD []) else s.rows? u := by
  by_cases hut : u = t
  · subst hut
    rw [if_pos rfl, createTable]
    split
    · next rows hrows => rw [hrows, Option.getD_some]
    · next hrows => rw [rows?_put_self, hrows, Option.getD_none]
  · rw [if_neg hut, createTable]
    split
    · rfl
    · exact rows?_put_of_ne s (Ne.symm hut) _

/-- Making some tables makes those of them that are missing, empty. -/
theorem rows?_foldl_createTable (tables : List Table) (s : Store) (t : Table) :
    (tables.foldl createTable s).rows? t =
      if t ∈ tables then some ((s.rows? t).getD []) else s.rows? t := by
  induction tables generalizing s with
  | nil => rfl
  | cons u tables ih =>
    rw [List.foldl_cons, ih, rows?_createTable]
    by_cases htu : t = u
    · simp [htu]
    · simp [htu]

theorem rows?_recordVersion (h : t ≠ .versions) (version : Int) :
    (s.recordVersion version).rows? t = s.rows? t := by
  rw [recordVersion]
  split
  · split
    · rfl
    · exact rows?_put_of_ne s (Ne.symm h) _
  · rfl

/-- A version is recorded once. -/
theorem versions_recordVersion {versions : List Int} (h : s.versions = some versions)
    (version : Int) :
    (s.recordVersion version).versions =
      some (if version ∈ versions then versions else versions ++ [version]) := by
  simp only [recordVersion, h]
  split
  · exact h
  · rfl

/-! ### The whole -/

theorem rows?_create_all (s : Store) (t : Table) :
    (Table.all.foldl createTable s).rows? t = some ((s.rows? t).getD []) := by
  rw [rows?_foldl_createTable, if_pos t.mem_all]

/-- After setting up a table has the rows that the migration left, or none. -/
theorem rows?_ensureSchema (h : t ≠ .versions) :
    s.ensureSchema.rows? t = some ((s.migrate.rows? t).getD []) := by
  rw [ensureSchema, rows?_recordVersion h, rows?_create_all]

/-- To the versions the current one is added. -/
theorem versions_ensureSchema (s : Store) :
    s.ensureSchema.versions =
      some (if currentVersion ∈ s.versions.getD [] then s.versions.getD []
        else s.versions.getD [] ++ [currentVersion]) := by
  have hkept : (Table.all.foldl createTable s.migrate).versions = some (s.versions.getD []) := by
    have hcreated := rows?_create_all s.migrate .versions
    rwa [rows?_migrate (by decide)] at hcreated
  rw [ensureSchema, versions_recordVersion hkept]

theorem rows?_ensureSchema_isSome (s : Store) (t : Table) : (s.ensureSchema.rows? t).isSome := by
  by_cases h : t = .versions
  · subst h
    show s.ensureSchema.versions.isSome
    rw [versions_ensureSchema]
    rfl
  · rw [rows?_ensureSchema h]
    rfl

/-- The largest version recorded afterwards is the larger of the current one and the largest
recorded before. -/
theorem schemaVersion_ensureSchema (s : Store) :
    s.ensureSchema.schemaVersion =
      some (max currentVersion (s.schemaVersion.getD currentVersion)) := by
  have hlargest : s.schemaVersion = (s.versions.getD []).max? := by
    rw [schemaVersion]
    cases s.versions <;> rfl
  have hrecorded : s.ensureSchema.schemaVersion =
      (if currentVersion ∈ s.versions.getD [] then s.versions.getD []
        else s.versions.getD [] ++ [currentVersion]).max? := by
    rw [schemaVersion, versions_ensureSchema]
  rw [hrecorded, hlargest]
  generalize s.versions.getD [] = versions
  cases hmax : versions.max? with
  | none =>
    rw [List.max?_eq_none_iff.mp hmax]
    rfl
  | some v =>
    obtain ⟨hv, hle⟩ := List.max?_eq_some_iff.mp hmax
    rw [Option.getD_some, List.max?_eq_some_iff]
    split
    · next hmem =>
      rw [max_eq_right (hle _ hmem)]
      exact ⟨hv, hle⟩
    · constructor
      · rcases max_choice currentVersion v with h | h <;> rw [h]
        · exact List.mem_append_right _ List.mem_cons_self
        · exact List.mem_append_left _ hv
      · intro u hu
        rcases List.mem_append.mp hu with hu | hu
        · exact le_max_of_le_right (hle u hu)
        · exact le_max_of_le_left (List.mem_singleton.mp hu).le

/-- What was set up is not outdated. -/
theorem not_outdated_ensureSchema (s : Store) : ¬ s.ensureSchema.Outdated := by
  refine not_outdated fun v hv => ?_
  rw [schemaVersion_ensureSchema] at hv
  rw [← Option.some.inj hv]
  exact le_max_left _ _

/-- Setting up again changes nothing. -/
theorem ensureSchema_idempotent (s : Store) : s.ensureSchema.ensureSchema = s.ensureSchema := by
  refine ext_rows? fun t => ?_
  by_cases h : t = .versions
  · subst h
    show s.ensureSchema.ensureSchema.versions = s.ensureSchema.versions
    have hmem : currentVersion ∈ s.ensureSchema.versions.getD [] := by
      rw [versions_ensureSchema, Option.getD_some]
      split
      · assumption
      · exact List.mem_append_right _ List.mem_cons_self
    rw [versions_ensureSchema s.ensureSchema, if_pos hmem, versions_ensureSchema s,
      Option.getD_some]
  · rw [rows?_ensureSchema h, migrate_of_not_outdated (not_outdated_ensureSchema s),
      rows?_ensureSchema h, Option.getD_some]

/-- What setting up may make of a store: every table exists, the version is current, the
recomputable tables are emptied when the layout was older and kept otherwise, and all other tables
are kept, with the current version added to the versions. -/
structure SetUpFrom (s' s : Store) : Prop where
  complete : ∀ t, (s'.rows? t).isSome
  version : s'.schemaVersion = some (max 2 (s.schemaVersion.getD 2))
  emptied : ∀ v, s.schemaVersion = some v → v < 2 → s'.builds = some [] ∧ s'.isolated = some []
  recomputable_kept : (∀ v, s.schemaVersion = some v → 2 ≤ v) →
    (∀ rows, s.builds = some rows → s'.builds = some rows) ∧
      ∀ rows, s.isolated = some rows → s'.isolated = some rows
  kept : ∀ t ∉ [.versions, .builds, .isolated], ∀ rows, s.rows? t = some rows →
    s'.rows? t = some rows
  missing : ∀ t ≠ .versions, s.rows? t = none → s'.rows? t = some []
  versions : ∀ rows, s.versions = some rows →
    s'.versions = some (if 2 ∈ rows then rows else rows ++ [2])
  versions_missing : s.versions = none → s'.versions = some [2]

/-- **Setting up is idempotent and drops recomputable rows only**, for whatever tables a store has
and whatever rows they hold. -/
theorem ensureSchema_setUp (s : Store) :
    s.ensureSchema.SetUpFrom s ∧ s.ensureSchema.ensureSchema = s.ensureSchema := by
  refine ⟨?_, ensureSchema_idempotent s⟩
  have hkept : ∀ t ≠ .versions, s.migrate.rows? t = s.rows? t → ∀ rows, s.rows? t = some rows →
      s.ensureSchema.rows? t = some rows := by
    intro t ht hsame rows hrows
    rw [rows?_ensureSchema ht, hsame, hrows, Option.getD_some]
  have hemptied : ∀ t ∈ recomputable, s.Outdated → s.ensureSchema.rows? t = some [] := by
    intro t ht hold
    have hne : t ≠ .versions := by
      rintro rfl
      exact absurd ht (by decide)
    rw [rows?_ensureSchema hne, rows?_migrate_of_outdated hold ht, Option.getD_none]
  refine
    { complete := rows?_ensureSchema_isSome s
      version := schemaVersion_ensureSchema s
      emptied := fun v hv hlt => ?_
      recomputable_kept := fun h => ?_
      kept := fun t ht => ?_
      missing := fun t ht hnone => ?_
      versions := fun rows hrows => ?_
      versions_missing := fun hnone => ?_ }
  · exact ⟨hemptied .builds (by decide) ⟨v, hv, hlt⟩, hemptied .isolated (by decide) ⟨v, hv, hlt⟩⟩
  · have hsame := migrate_of_not_outdated (not_outdated h)
    exact ⟨hkept .builds (by decide) (by rw [hsame]), hkept .isolated (by decide) (by rw [hsame])⟩
  · have hne : t ≠ .versions := fun h => ht (h ▸ List.mem_cons_self)
    exact hkept t hne (rows?_migrate fun h => ht (List.mem_cons_of_mem _ h))
  · have hmigrated : s.migrate.rows? t = none := by
      by_cases hold : s.Outdated ∧ t ∈ recomputable
      · exact rows?_migrate_of_outdated hold.1 hold.2
      · rcases not_and_or.mp hold with h | h
        · rw [migrate_of_not_outdated h, hnone]
        · rw [rows?_migrate h, hnone]
    rw [rows?_ensureSchema ht, hmigrated, Option.getD_none]
  · rw [versions_ensureSchema, hrows, Option.getD_some]
    rfl
  · rw [versions_ensureSchema, hnone]
    rfl

end Store

end Gunsmith
