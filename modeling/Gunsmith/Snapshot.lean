/-
  A source of catalogue data that remembers its answers.

  Evaluations ask the same questions many times, so an answer is kept once it has been
  given, and given again until everything is forgotten, whatever is written to the
  catalogue meanwhile.  Failures are not kept, and neither are weapons: the first
  question of an evaluation is always answered from the catalogue as it is.
-/
import Gunsmith.Store.Catalog
import Std.Data.TreeMap

namespace Gunsmith

/-- The answers remembered, by question and id. -/
structure Snapshot where
  slots : Std.TreeMap String (List SlotRecord)
  allowed : Std.TreeMap String (List AllowedItem)
  properties : Std.TreeMap String Properties
  offers : Std.TreeMap String (List Offer)

namespace Snapshot

/-- Nothing is remembered. -/
def empty : Snapshot := ⟨∅, ∅, ∅, ∅⟩

instance : Inhabited Snapshot := ⟨empty⟩

/-- Answers from memory if possible; otherwise asks, and remembers the answer unless it is a
failure. -/
def remembering {α : Type} (memory : Snapshot → Std.TreeMap String α)
    (keep : Snapshot → Std.TreeMap String α → Snapshot)
    (ask : String → Except StoreError α) (id : String) : StateM Snapshot (Except StoreError α) :=
  fun s =>
    match (memory s)[id]? with
    | some a => (.ok a, s)
    | none =>
      match ask id with
      | .ok a => (.ok a, keep s ((memory s).insert id a))
      | .error e => (.error e, s)

/-- The catalogue of a store behind the memory. -/
def provider (store : Store) : Provider (StateM Snapshot) where
  weapon := fun id => return store.weapon id
  slots := remembering Snapshot.slots (fun s m => { s with slots := m }) store.slotsOf
  allowed := remembering Snapshot.allowed (fun s m => { s with allowed := m }) store.allowedIn
  properties := remembering Snapshot.properties (fun s m => { s with properties := m })
    store.propertiesOf
  offers := remembering Snapshot.offers (fun s m => { s with offers := m }) store.offersFor

end Snapshot

end Gunsmith
