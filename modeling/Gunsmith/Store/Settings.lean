/-
  Settings: values set for keys.
-/
import Gunsmith.Json.Printer
import Gunsmith.Store.Tables

namespace Gunsmith

namespace Store

/-- The value set for a key. -/
def setting? (s : Store) (key : String) : Except StoreError (Option String) := do
  let rows ← s.rows .settings
  return (rows.find? fun row => row.key = key).map Setting.value

/-- The value set for a key, or a default. -/
def settingOr (s : Store) (key default : String) : Except StoreError String := do
  return (← s.setting? key).getD default

/-- All settings as one JSON text, by ascending keys. -/
def settingsText (s : Store) : Except StoreError String := do
  let rows ← s.rows .settings
  let sorted := rows.mergeSort fun a b => decide (a.key ≤ b.key)
  return (Json.object (sorted.map fun row => (row.key, .text row.value))).print

end Store

/-- Sets the value for a key. -/
def Transaction.setSetting (key value : String) : Transaction Unit := do
  let rows ← rows .settings
  write .settings
    (upsertRow (fun row => row.key == key) (fun _ => ⟨key, value⟩) ⟨key, value⟩ rows)

end Gunsmith
