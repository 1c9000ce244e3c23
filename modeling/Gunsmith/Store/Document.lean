/-
  Catalogue documents.

  A document lists the rows of a catalogue: items, slots, what fits into slots,
  conflicts, and offers.  Kinds and traders stand in it as texts.  Loading a document
  enters its rows one by one, list after list, and stops at the first that is refused;
  the rows before it stay.  A text is read when its row is entered.
-/
import Gunsmith.Json.Members
import Gunsmith.Store.Catalog
import Gunsmith.Text.NameSet

namespace Gunsmith

/-- Why loading a document stopped. -/
inductive LoadError where
  /-- A text names no kind of item or no trader. -/
  | unknownWord (detail : String)
  /-- The store refused a row. -/
  | refused (cause : StoreError)
deriving DecidableEq, Inhabited

/-- An item as a document lists it. -/
structure ItemLine where
  id : String
  name : String
  kind : String
  modifiers : Totals
deriving DecidableEq, Inhabited

/-- An offer as a document lists it. -/
structure OfferLine where
  trader : String
  minLevel : Nat
  price : Int
deriving DecidableEq, Inhabited

/-- A catalogue document. -/
structure CatalogDocument where
  items : List ItemLine
  slots : List SlotRow
  allowed : List AllowedRow
  conflicts : List (String × String)
  offers : List (String × List OfferLine)
deriving DecidableEq, Inhabited

/-! ### Reading -/

/-- A list of two values. -/
def Json.pair? {α β : Type} (first : Json → Option α) (second : Json → Option β) :
    Json → Option (α × β)
  | .list [a, b] => do return (← first a, ← second b)
  | _ => none

def ItemLine.ofJson? : Json → Option ItemLine
  | .list [id, name, kind, recoil, ergonomics] => do
    return ⟨← id.text?, ← name.text?, ← kind.text?, ⟨← recoil.int64?, ← ergonomics.int64?⟩⟩
  | _ => none

def OfferLine.ofJson? : Json → Option OfferLine
  | .list [trader, level, price] => do
    return ⟨← trader.text?, ← level.natUpTo? 255, ← price.int64?⟩
  | _ => none

def SlotRow.ofJson? : Json → Option SlotRow
  | .list [id, owner, name, position] => do
    return ⟨← id.text?, ← owner.text?, ← name.text?, ← position.int64?⟩
  | _ => none

def AllowedRow.ofJson? : Json → Option AllowedRow
  | .list [slot, item, position] => do return ⟨← slot.text?, ← item.text?, ← position.int64?⟩
  | _ => none

/-- Reads a document, of which any list may be missing. -/
def CatalogDocument.ofJson? (v : Json) : Option CatalogDocument := do
  let ms ← v.members?
  return {
    items := ← ms.defaulted? "items" [] (Json.listOf? ItemLine.ofJson?)
    slots := ← ms.defaulted? "slots" [] (Json.listOf? SlotRow.ofJson?)
    allowed := ← ms.defaulted? "allowed" [] (Json.listOf? AllowedRow.ofJson?)
    conflicts := ← ms.defaulted? "conflicts" []
      (Json.listOf? (Json.pair? Json.text? Json.text?))
    offers := ← ms.defaulted? "offers" []
      (Json.listOf? (Json.pair? Json.text? (Json.listOf? OfferLine.ofJson?))) }

/-! ### Loading -/

/-- The item that a line stands for. -/
def ItemLine.item (line : ItemLine) : Except LoadError Item := do
  let kind ← (ItemKind.parse line.kind).mapError .unknownWord
  return ⟨line.id, line.name, kind, line.modifiers⟩

/-- The offer that a line stands for. -/
def OfferLine.offer (line : OfferLine) : Except LoadError Offer := do
  let trader ← (Trader.parse line.trader).mapError .unknownWord
  return ⟨trader, line.minLevel, line.price⟩

/-- The entries that a row asks for: one call on the store, once its texts are read. -/
abbrev Entry := Except LoadError (Transaction Unit)

/-- Enters an item. -/
def ItemLine.entry (line : ItemLine) : Entry :=
  line.item.map Transaction.upsertItem

/-- Enters the offers for an item. -/
def OfferLine.entry (itemId : String) (lines : List OfferLine) : Entry :=
  (lines.mapM OfferLine.offer).map (Transaction.replaceOffers itemId)

namespace CatalogDocument

/-- The entries for all rows of a document, in order. -/
def entries (doc : CatalogDocument) : List Entry :=
  doc.items.map ItemLine.entry
    ++ doc.slots.map (fun row => .ok (.upsertSlot row.ownerId row.id row.name row.position))
    ++ doc.allowed.map (fun row => .ok (.allowItem row.slotId row.itemId row.position))
    ++ doc.conflicts.map (fun (item, other) => .ok (.addConflict item other))
    ++ doc.offers.map (fun (item, lines) => OfferLine.entry item lines)

/-- Makes one entry. -/
def enter (entry : Entry) (s : Store) : Except LoadError Unit × Store :=
  match entry with
  | .error e => (.error e, s)
  | .ok action =>
    let (answer, s) := action.call s
    (answer.mapError .refused, s)

/-- Makes entries one after the other until one is refused. -/
def enterAll : List Entry → Store → Except LoadError Unit × Store
  | [], s => (.ok (), s)
  | entry :: rest, s =>
    match enter entry s with
    | (.ok (), s) => enterAll rest s
    | (.error e, s) => (.error e, s)

/-- Loads a document. -/
def load (doc : CatalogDocument) (s : Store) : Except LoadError Unit × Store :=
  enterAll doc.entries s

/-- The ids of the items and conflicts that a document mentions, in ascending order. -/
def ids (doc : CatalogDocument) : List String :=
  (NameSet.ofList
    (doc.items.map ItemLine.id ++ doc.conflicts.flatMap fun (a, b) => [a, b])).toList

end CatalogDocument

end Gunsmith
