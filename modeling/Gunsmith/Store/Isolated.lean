/-
  Isolated solutions kept in the store.

  For each item, stat, levels key and version of the catalogue one isolated solution is
  kept, and the one written last counts.
-/
import Gunsmith.Store.Queue

namespace Gunsmith

/-- The row belongs to the item under these levels. -/
def IsolatedRow.Matches (row : IsolatedRow) (itemId : String) (stat : Stat)
    (levels : TraderLevels) (version : String) : Prop :=
  row.itemId = itemId ∧ row.stat = stat ∧ row.levelsKey = levels.key ∧ row.version = version

instance IsolatedRow.decidableMatches (row : IsolatedRow) (itemId : String) (stat : Stat)
    (levels : TraderLevels) (version : String) :
    Decidable (row.Matches itemId stat levels version) :=
  inferInstanceAs (Decidable (_ ∧ _))

/-- The isolated solution kept for an item. -/
def Store.isolated? (s : Store) (itemId : String) (stat : Stat) (levels : TraderLevels)
    (version : String) : Except StoreError (Option CacheEntry) := do
  let rows ← s.rows .isolated
  match rows.find? fun row => row.Matches itemId stat levels version with
  | none => return none
  | some row =>
    let selections ← Column.json 2 (Json.listOf? Selection.ofJson?) row.selections
    return some ⟨itemId, stat, row.sums, selections⟩

namespace Transaction

/-- Keeps an isolated solution. -/
def setIsolated (levels : TraderLevels) (version : String) (e : CacheEntry) :
    Transaction Unit := do
  let rows ← rows .isolated
  let text := (Selection.listToJson e.selections).print
  write .isolated <|
    upsertRow (fun row => row.Matches e.itemId e.stat levels version)
      (fun row => { row with sums := e.sums, selections := text })
      ⟨e.itemId, e.stat, levels.key, version, e.sums, text⟩ rows

/-- Forgets all isolated solutions, of whatever version. -/
def clearIsolated : Transaction Unit := do
  let _ ← rows .isolated
  write .isolated []

/-- Forgets the isolated solutions for other versions of the catalogue, and counts them. -/
def purgeIsolated (version : String) : Transaction Nat := do
  let rows ← rows .isolated
  write .isolated (rows.filter fun row => row.version == version)
  return (rows.filter fun row => row.version != version).length

end Transaction

end Gunsmith
