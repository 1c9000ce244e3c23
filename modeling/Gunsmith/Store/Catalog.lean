/-
  The catalogue: writing it, and reading it piece by piece.

  Writing an item or a slot again changes it in place and keeps all that hangs on it.  A
  slot needs its item; an item that fits a slot needs both.  Conflicts and offers may
  name anything.

  Reading follows the order of the catalogue: slots and fitting items by position and
  then by id, conflicts by id, offers by the name of the trader and then by level.
-/
import Gunsmith.Store.Tables
import Gunsmith.Provider
import Gunsmith.Trader

namespace Gunsmith

/-! ### Writing -/

namespace Transaction

/-- The rows of a table that rows of another table refer to. -/
def referredRows (t : Table) : Transaction (List t.Row) := do
  match (← get).rows? t with
  | some rows => return rows
  | none => throw (.missingTable s!"main.{t.name}")

/-- Fails unless the row that a row refers to exists. -/
def requireRow {α : Type} (rows : List α) (found : α → Bool) : Transaction Unit :=
  if rows.any found then return () else throw .brokenReference

/-- Adds an item, or changes the one with its id. -/
def upsertItem (item : Item) : Transaction Unit := do
  let rows ← rows .items
  write .items (upsertRow (fun row => row.id == item.id) (fun _ => item) item rows)

/-- Adds a slot of an item, or changes the one with its id. -/
def upsertSlot (ownerId slotId name : String) (position : Int) : Transaction Unit := do
  let rows ← rows .slots
  let items ← referredRows .items
  requireRow items fun item => item.id == ownerId
  let slot : SlotRow := ⟨slotId, ownerId, name, position⟩
  write .slots (upsertRow (fun row => row.id == slotId) (fun _ => slot) slot rows)

/-- Lets an item fit a slot, or moves it to another position. -/
def allowItem (slotId itemId : String) (position : Int) : Transaction Unit := do
  let rows ← rows .allowed
  let items ← referredRows .items
  let slots ← referredRows .slots
  requireRow items fun item => item.id == itemId
  requireRow slots fun slot => slot.id == slotId
  let allowed : AllowedRow := ⟨slotId, itemId, position⟩
  write .allowed
    (upsertRow (fun row => row.slotId == slotId && row.itemId == itemId) (fun _ => allowed) allowed
      rows)

/-- Records a conflict that an item declares, once. -/
def addConflict (itemId otherId : String) : Transaction Unit := do
  let rows ← rows .conflicts
  let conflict : ConflictRow := ⟨itemId, otherId⟩
  write .conflicts (upsertRow (fun row => row == conflict) (fun row => row) conflict rows)

/-- Sets an offer; an offer of the same trader at the same level is replaced. -/
def setOffer (rows : List OfferRow) (offer : OfferRow) : List OfferRow :=
  rows.filter (fun row =>
    !(row.itemId == offer.itemId && row.trader == offer.trader && row.minLevel == offer.minLevel))
    ++ [offer]

/-- Replaces all offers for an item. -/
def replaceOffers (itemId : String) (offers : List Offer) : Transaction Unit := do
  let rows ← rows .offers
  let others := rows.filter fun row => row.itemId != itemId
  write .offers <|
    offers.foldl (fun rows o => setOffer rows ⟨itemId, o.trader.name, o.minLevel, o.price⟩) others

end Transaction

/-! ### Reading -/

namespace Store

/-- The ids of all weapons, in ascending order. -/
def weaponIds (s : Store) : Except StoreError (List String) := do
  let rows ← s.rows .items
  let weapons := rows.filter fun item => item.kind = .weapon
  return (weapons.map Item.id).mergeSort fun a b => decide (a ≤ b)

/-- The weapon with an id. -/
def weapon (s : Store) (id : String) : Except StoreError Weapon := do
  let rows ← s.rows .items
  match rows.find? fun item => item.id = id ∧ item.kind = .weapon with
  | some item => return ⟨item.id, item.name, item.modifiers⟩
  | none => throw (.notFound "weapon" id)

/-- The order by position, and by id among equal positions. -/
def placedBefore (position₁ : Int) (id₁ : String) (position₂ : Int) (id₂ : String) : Bool :=
  decide (position₁ < position₂ ∨ (position₁ = position₂ ∧ id₁ ≤ id₂))

/-- The slots of an item. -/
def slotsOf (s : Store) (itemId : String) : Except StoreError (List SlotRecord) := do
  let rows ← s.rows .slots
  let own := rows.filter fun row => row.ownerId == itemId
  let sorted := own.mergeSort fun a b => placedBefore a.position a.id b.position b.id
  return sorted.map fun row => ⟨row.id, row.name⟩

/-- The items that fit a slot, with the names that they have now. -/
def allowedIn (s : Store) (slotId : String) : Except StoreError (List AllowedItem) := do
  let rows ← s.rows .allowed
  let items ← s.rows .items
  let own := rows.filter fun row => row.slotId == slotId
  let sorted := own.mergeSort fun a b => placedBefore a.position a.itemId b.position b.itemId
  return sorted.filterMap fun row =>
    (items.find? fun item => item.id = row.itemId).map fun item => ⟨item.id, item.name⟩

/-- The modifiers of an item and the conflicts that it declares. -/
def propertiesOf (s : Store) (itemId : String) : Except StoreError Properties := do
  let items ← s.rows .items
  match items.find? fun item => item.id = itemId with
  | none => throw (.notFound "item" itemId)
  | some item =>
    let conflicts ← s.rows .conflicts
    let own := conflicts.filter fun row => row.itemId == itemId
    return ⟨item.modifiers, (own.map ConflictRow.otherId).mergeSort fun a b => decide (a ≤ b)⟩

/-- The offer in a row: the trader has to be known, and the level to be one of a byte. -/
def offerOf (row : OfferRow) : Except StoreError Offer := do
  let trader ← (Trader.parse row.trader).mapError (StoreError.unreadableColumn 0)
  if row.minLevel < 0 ∨ 255 < row.minLevel then
    throw (.outOfRange 1 row.minLevel)
  return ⟨trader, row.minLevel.toNat, row.price⟩

/-- The offers for an item. -/
def offersFor (s : Store) (itemId : String) : Except StoreError (List Offer) := do
  let rows ← s.rows .offers
  let own := rows.filter fun row => row.itemId == itemId
  let sorted := own.mergeSort fun a b =>
    decide (a.trader < b.trader ∨ (a.trader = b.trader ∧ a.minLevel ≤ b.minLevel))
  sorted.mapM offerOf

/-- The catalogue, read afresh for every question. -/
def provider (s : Store) : Provider Id where
  weapon := s.weapon
  slots := s.slotsOf
  allowed := s.allowedIn
  properties := s.propertiesOf
  offers := s.offersFor

end Store

end Gunsmith
