/-
  Results kept by depth.

  For each item, stat, constraints key and version of the catalogue one result is kept,
  with the depth down to which candidates were considered for it.  A result for a
  greater or equal depth replaces it; a shallower one is not accepted.  A result answers
  every question about a depth that it reaches.
-/
import Gunsmith.Store.Queue

namespace Gunsmith

/-- The row belongs to the request. -/
def SubtreeRow.Matches (row : SubtreeRow) (itemId : String) (stat : Stat) (c : Constraints)
    (version : String) : Prop :=
  row.itemId = itemId ∧ row.stat = stat ∧ row.constraintsKey = c.key ∧ row.version = version

instance SubtreeRow.decidableMatches (row : SubtreeRow) (itemId : String) (stat : Stat)
    (c : Constraints) (version : String) : Decidable (row.Matches itemId stat c version) :=
  inferInstanceAs (Decidable (_ ∧ _))

/-- The largest depth there is. -/
def maxDepth : Nat := 4294967295

/-- The depth and the result in a row. -/
def SubtreeRow.content (row : SubtreeRow) : Except StoreError (Nat × BuildResult) := do
  if row.depth < 0 ∨ (maxDepth : Int) < row.depth then
    throw (.outOfRange 0 row.depth)
  return (row.depth.toNat, ← Column.json 1 BuildResult.ofJson? row.result)

/-- The result kept for a request, if it reaches the depth. -/
def Store.subtree? (s : Store) (itemId : String) (stat : Stat) (c : Constraints)
    (version : String) (depth : Nat) : Except StoreError (Option SubtreeEntry) := do
  let rows ← s.rows .subtrees
  match rows.find? fun row => row.Matches itemId stat c version ∧ (depth : Int) ≤ row.depth with
  | none => return none
  | some row =>
    let (found, result) ← row.content
    return some ⟨itemId, stat, c, version, found, result⟩

namespace Transaction

/-- Keeps a result, unless a deeper one is kept already. -/
def upsertSubtree (e : SubtreeEntry) : Transaction Unit := do
  let rows ← rows .subtrees
  let text := e.result.toJson.print
  write .subtrees <|
    upsertRow (fun row => row.Matches e.itemId e.stat e.constraints e.version)
      (fun row =>
        if row.depth ≤ e.depth then { row with depth := e.depth, result := text } else row)
      ⟨e.itemId, e.stat, e.constraints.key, e.version, e.depth, text⟩ rows

/-- Forgets the results for other versions of the catalogue, and counts them. -/
def purgeSubtrees (version : String) : Transaction Nat := do
  let rows ← rows .subtrees
  write .subtrees (rows.filter fun row => row.version == version)
  return (rows.filter fun row => row.version != version).length

end Transaction

end Gunsmith
