/-
  Setting up the tables, and bringing old ones up to date.

  The store records the versions of its layout.  Builds and isolated solutions have been
  identified by the catalogue's version since layout 2; what an older layout holds of
  them can be computed again, so these two tables are dropped and made anew.  All other
  tables are kept as they are.
-/
import Gunsmith.Store.Tables

namespace Gunsmith

namespace Store

/-- The layout that this library works with. -/
def currentVersion : Int := 2

/-- The largest version recorded: none without a record, or without the table of records. -/
def schemaVersion (s : Store) : Option Int :=
  match s.versions with
  | none => none
  | some versions => versions.max?

/-- Removes a table.  Rows that cannot stand without its rows go with them: slots without their
items, and fitting items without their slots. -/
def drop (s : Store) : Table → Store
  | .items =>
    { s with items := none, slots := s.slots.map fun _ => [], allowed := s.allowed.map fun _ => [] }
  | .slots => { s with slots := none, allowed := s.allowed.map fun _ => [] }
  | t => s.put t none

/-- Drops the tables whose rows an older layout identifies differently. -/
def migrate (s : Store) : Store :=
  match s.schemaVersion with
  | some version => if version < 2 then { s with builds := none, isolated := none } else s
  | none => s

/-- Makes the table if it does not exist. -/
def createTable (s : Store) (t : Table) : Store :=
  match s.rows? t with
  | some _ => s
  | none => s.put t (some [])

/-- Records a version, once. -/
def recordVersion (s : Store) (version : Int) : Store :=
  match s.versions with
  | some versions =>
    if version ∈ versions then s else { s with versions := some (versions ++ [version]) }
  | none => s

/-- Sets up what is missing. -/
def ensureSchema (s : Store) : Store :=
  (Table.all.foldl createTable s.migrate).recordVersion currentVersion

/-- A store set up from nothing. -/
def fresh : Store := bare.ensureSchema

end Store

namespace Transaction

/-- The tables that have to exist before the rows that refer to a table can be removed with it: all
those to which such rows refer. -/
def neededToDrop (s : Store) (t : Table) : List Table :=
  (Table.all.filter fun u => t ∈ u.parents ∧ (s.rows? u).isSome).flatMap Table.parents

/-- Removes a table that has to exist. -/
def dropTable (t : Table) : Transaction Unit := do
  let _ ← rows t
  let s ← get
  match (neededToDrop s t).find? fun u => (s.rows? u).isNone with
  | some u => throw (.missingTable s!"main.{u.name}")
  | none => set (s.drop t)

/-- Replaces the recorded versions of the layout. -/
def setVersions (versions : List Int) : Transaction Unit := do
  let _ ← rows .versions
  write .versions versions

end Transaction

end Gunsmith
