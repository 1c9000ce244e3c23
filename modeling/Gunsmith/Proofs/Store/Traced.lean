/-
  The catalogue as a function of what was written to it.

  Whatever calls are made on an empty catalogue, in whatever order and with whatever arguments, each
  of its tables holds what was last written under each key (`LastWritten`).  What was written are
  the calls that succeeded (`CatalogueCall.made`); a call fails only if it refers to an item or to a
  slot that there is not (`CatalogueCall.Dangles`), and then it changes nothing.

  `CatalogueCall.Traced` is the invariant, one table after the other.  A call that succeeds is the
  last one that was made and keeps it (`CatalogueCall.Traced.write`), so it holds after every run
  (`CatalogueCall.traced_after`).
-/
import Gunsmith.Proofs.Store.Catalogue
import Gunsmith.Proofs.Store.LastWritten

namespace Gunsmith

/-! ### Rows of a table -/

namespace Store

variable {s : Store} {t u : Table}

/-- The rows of a table, none if it does not exist. -/
def rowsOf (s : Store) (t : Table) : List t.Row := (s.rows? t).getD []

theorem rowsOf_eq {rows : List t.Row} (h : s.rows? t = some rows) : s.rowsOf t = rows := by
  rw [rowsOf, h, Option.getD_some]

theorem rows?_eq (h : (s.rows? t).isSome) : s.rows? t = some (s.rowsOf t) := by
  obtain ⟨rows, hrows⟩ := Option.isSome_iff_exists.mp h
  rw [hrows, rowsOf_eq hrows]

@[simp]
theorem rowsOf_put_self (s : Store) (t : Table) (rows : List t.Row) :
    (s.put t (some rows)).rowsOf t = rows :=
  rowsOf_eq (s.rows?_put_self t _)

theorem rowsOf_put_of_ne (s : Store) (h : t ≠ u) (rows : Option (List t.Row)) :
    (s.put t rows).rowsOf u = s.rowsOf u := by
  rw [rowsOf, rowsOf, s.rows?_put_of_ne h]

/-- The tables of the catalogue exist, and nothing is in them. -/
structure BlankCatalogue (s : Store) : Prop where
  items : s.rows? .items = some []
  slots : s.rows? .slots = some []
  allowed : s.rows? .allowed = some []
  conflicts : s.rows? .conflicts = some []
  offers : s.rows? .offers = some []

/-- The tables of the catalogue exist. -/
structure HasCatalogue (s : Store) : Prop where
  items : (s.rows? .items).isSome
  slots : (s.rows? .slots).isSome
  allowed : (s.rows? .allowed).isSome
  conflicts : (s.rows? .conflicts).isSome
  offers : (s.rows? .offers).isSome

end Store

/-- What identifies the row of an item that fits a slot. -/
def AllowedRow.key (row : AllowedRow) : String × String := (row.slotId, row.itemId)

/-- What identifies the row of an offer. -/
def OfferRow.key (row : OfferRow) : String × String × Int := (row.itemId, row.trader, row.minLevel)

/-- A call that writes the catalogue, with all that it is given. -/
inductive CatalogueCall where
  | putItem (item : Item)
  | putSlot (ownerId slotId name : String) (position : Int)
  | allow (slotId itemId : String) (position : Int)
  | conflict (itemId otherId : String)
  | putOffers (itemId : String) (offers : List Offer)

namespace CatalogueCall

/-! ### Calls -/

/-- The table that a call writes. -/
def table : CatalogueCall → Table
  | .putItem _ => .items
  | .putSlot .. => .slots
  | .allow .. => .allowed
  | .conflict .. => .conflicts
  | .putOffers .. => .offers

/-- What the call does. -/
def action : CatalogueCall → Transaction Unit
  | .putItem item => .upsertItem item
  | .putSlot ownerId slotId name position => .upsertSlot ownerId slotId name position
  | .allow slotId itemId position => .allowItem slotId itemId position
  | .conflict itemId otherId => .addConflict itemId otherId
  | .putOffers itemId offers => .replaceOffers itemId offers

/-- Makes the call. -/
def run (call : CatalogueCall) (s : Store) : Except StoreError Unit × Store := call.action.call s

/-- The store after some calls. -/
def after (calls : List CatalogueCall) (s : Store) : Store :=
  calls.foldl (fun s call => (call.run s).2) s

/-- Those of some calls that succeed, each at its time. -/
def made (s : Store) : List CatalogueCall → List CatalogueCall
  | [] => []
  | call :: calls =>
    match call.run s with
    | (.ok (), s') => call :: made s' calls
    | (.error _, s') => made s' calls

/-- The call refers to the owner of a slot, to a slot or to an item that does not exist. -/
def Dangles (s : Store) : CatalogueCall → Prop
  | .putSlot ownerId .. => ∀ item ∈ s.rowsOf .items, item.id ≠ ownerId
  | .allow slotId itemId _ =>
    (∀ item ∈ s.rowsOf .items, item.id ≠ itemId) ∨ ∀ slot ∈ s.rowsOf .slots, slot.id ≠ slotId
  | _ => False

/-- The rows of the table after a call that succeeds. -/
def rowsAfter : (call : CatalogueCall) → List call.table.Row → List call.table.Row
  | .putItem item, rows => upsertRow (fun row : Item => row.id == item.id) (fun _ => item) item rows
  | .putSlot ownerId slotId name position, rows =>
    upsertRow (fun row : SlotRow => row.id == slotId) (fun _ => ⟨slotId, ownerId, name, position⟩)
      ⟨slotId, ownerId, name, position⟩ rows
  | .allow slotId itemId position, rows =>
    upsertRow (fun row : AllowedRow => row.slotId == slotId && row.itemId == itemId)
      (fun _ => ⟨slotId, itemId, position⟩) ⟨slotId, itemId, position⟩ rows
  | .conflict itemId otherId, rows =>
    upsertRow (fun row : ConflictRow => row == ⟨itemId, otherId⟩) (fun row => row)
      ⟨itemId, otherId⟩ rows
  | .putOffers itemId offers, rows =>
    offers.foldl
      (fun rows o => Transaction.setOffer rows ⟨itemId, o.trader.name, o.minLevel, o.price⟩)
      (rows.filter fun row : OfferRow => row.itemId != itemId)

/-- The store after a call that succeeds. -/
def write (call : CatalogueCall) (s : Store) : Store :=
  s.put call.table (some (call.rowsAfter (s.rowsOf call.table)))

variable {start s : Store} {calls : List CatalogueCall} {call : CatalogueCall}

theorem after_concat (calls : List CatalogueCall) (call : CatalogueCall) (s : Store) :
    after (calls ++ [call]) s = (call.run (after calls s)).2 :=
  List.foldl_append

theorem made_append (calls further : List CatalogueCall) (s : Store) :
    made s (calls ++ further) = made s calls ++ made (after calls s) further := by
  induction calls generalizing s with
  | nil => rfl
  | cons call calls ih =>
    show made s (call :: (calls ++ further)) = _ ++ made (after calls (call.run s).2) further
    rw [made, made]
    match call.run s with
    | (.ok (), s') => exact congrArg (call :: ·) (ih s')
    | (.error _, s') => exact ih s'

/-- The calls that succeed are some of those that are made. -/
theorem made_sublist (calls : List CatalogueCall) (s : Store) : (made s calls).Sublist calls := by
  induction calls generalizing s with
  | nil => exact List.Sublist.slnil
  | cons call calls ih =>
    rw [made]
    match call.run s with
    | (.ok (), s') => exact (ih s').cons_cons call
    | (.error _, s') => exact (ih s').cons call

/-! ### What a call does -/

end CatalogueCall

namespace Transaction

variable {α β : Type} {s : Store} {rows : List α} {found : α → Bool}

theorem referredRows_bind {t : Table} {rows : List t.Row} (h : s.rows? t = some rows)
    (next : List t.Row → Transaction β) : (referredRows t >>= next) s = next rows s := by
  have hread : referredRows t s = .ok (rows, s) := by
    simp only [referredRows, bind, StateT.bind, get, getThe, MonadStateOf.get, StateT.get, pure,
      Except.pure, Except.bind, h]
    rfl
  show StateT.bind (referredRows t) next s = _
  rw [StateT.bind, hread]
  rfl

theorem requireRow_bind (h : ∃ row ∈ rows, found row = true) (next : Unit → Transaction β) :
    (requireRow rows found >>= next) s = next () s := by
  rw [requireRow, if_pos (List.any_eq_true.mpr h)]
  rfl

theorem requireRow_bind_of_not (h : ∀ row ∈ rows, ¬ found row = true)
    (next : Unit → Transaction β) :
    (requireRow rows found >>= next) s = .error .brokenReference := by
  rw [requireRow, if_neg fun hany => by
    obtain ⟨row, hrow, hfound⟩ := List.any_eq_true.mp hany
    exact h row hrow hfound]
  rfl

end Transaction

namespace CatalogueCall

variable {start s : Store} {calls : List CatalogueCall} {call : CatalogueCall}

open Transaction (call_ok call_error rows_bind referredRows_bind requireRow_bind
  requireRow_bind_of_not)

/-- A call that refers to nothing that is missing succeeds. -/
theorem run_of_not_dangles (h : s.HasCatalogue) (hcall : ¬ call.Dangles s) :
    call.run s = (.ok (), call.write s) := by
  refine call_ok ?_
  cases call with
  | putItem item =>
    show Transaction.upsertItem item s = _
    rw [Transaction.upsertItem, rows_bind (Store.rows?_eq h.items)]
    rfl
  | putSlot ownerId slotId name position =>
    have howner : ∃ item ∈ s.rowsOf .items, (item.id == ownerId) = true := by
      simpa [Dangles] using hcall
    show Transaction.upsertSlot ownerId slotId name position s = _
    rw [Transaction.upsertSlot, rows_bind (Store.rows?_eq h.slots),
      referredRows_bind (Store.rows?_eq h.items), requireRow_bind howner]
    rfl
  | allow slotId itemId position =>
    obtain ⟨hitem, hslot⟩ := not_or.mp hcall
    have hitem : ∃ item ∈ s.rowsOf .items, (item.id == itemId) = true := by simpa using hitem
    have hslot : ∃ slot ∈ s.rowsOf .slots, (slot.id == slotId) = true := by simpa using hslot
    show Transaction.allowItem slotId itemId position s = _
    rw [Transaction.allowItem, rows_bind (Store.rows?_eq h.allowed),
      referredRows_bind (Store.rows?_eq h.items), referredRows_bind (Store.rows?_eq h.slots),
      requireRow_bind hitem, requireRow_bind hslot]
    rfl
  | conflict itemId otherId =>
    show Transaction.addConflict itemId otherId s = _
    rw [Transaction.addConflict, rows_bind (Store.rows?_eq h.conflicts)]
    rfl
  | putOffers itemId offers =>
    show Transaction.replaceOffers itemId offers s = _
    rw [Transaction.replaceOffers, rows_bind (Store.rows?_eq h.offers)]
    rfl

/-- A call that refers to something that is missing fails for this reason. -/
theorem run_of_dangles (h : s.HasCatalogue) (hcall : call.Dangles s) :
    call.run s = (.error .brokenReference, s) := by
  refine call_error ?_
  cases call with
  | putSlot ownerId slotId name position =>
    have howner : ∀ item ∈ s.rowsOf .items, ¬ (item.id == ownerId) = true := by
      simpa [Dangles] using hcall
    show Transaction.upsertSlot ownerId slotId name position s = _
    rw [Transaction.upsertSlot, rows_bind (Store.rows?_eq h.slots),
      referredRows_bind (Store.rows?_eq h.items), requireRow_bind_of_not howner]
  | allow slotId itemId position =>
    show Transaction.allowItem slotId itemId position s = _
    rw [Transaction.allowItem, rows_bind (Store.rows?_eq h.allowed),
      referredRows_bind (Store.rows?_eq h.items), referredRows_bind (Store.rows?_eq h.slots)]
    by_cases hitem : ∃ item ∈ s.rowsOf .items, (item.id == itemId) = true
    · have hslot : ∀ slot ∈ s.rowsOf .slots, ¬ (slot.id == slotId) = true := by
        refine fun slot hslot hid => hcall.elim (fun hnone => ?_) fun hnone => ?_
        · obtain ⟨item, hmem, hitem⟩ := hitem
          exact hnone item hmem (beq_iff_eq.mp hitem)
        · exact hnone slot hslot (beq_iff_eq.mp hid)
      rw [requireRow_bind hitem, requireRow_bind_of_not hslot]
    · exact requireRow_bind_of_not (fun item hmem hid => hitem ⟨item, hmem, hid⟩) _
  | _ => cases hcall

/-- What holds of a store, and after the call if it succeeds, holds after the call. -/
theorem run_cases {P : Store → Prop} (h : s.HasCatalogue) (hs : P s)
    (hwrite : ¬ call.Dangles s → P (call.write s)) : P (call.run s).2 := by
  by_cases hcall : call.Dangles s
  · rwa [run_of_dangles h hcall]
  · rw [run_of_not_dangles h hcall]
    exact hwrite hcall

/-! ### What was last written -/

/-- What the last of some calls wrote that wrote something of the kind that is selected. -/
def last? {α : Type} (select : CatalogueCall → Option α) (calls : List CatalogueCall) : Option α :=
  calls.reverse.findSome? select

/-- The item that a call writes under an id. -/
def item? (id : String) : CatalogueCall → Option Item
  | .putItem item => if id = item.id then some item else none
  | _ => none

/-- The slot that a call writes under an id. -/
def slot? (id : String) : CatalogueCall → Option SlotRow
  | .putSlot ownerId slotId name position =>
    if id = slotId then some ⟨slotId, ownerId, name, position⟩ else none
  | _ => none

/-- The place that a call gives an item in a slot. -/
def allowed? (key : String × String) : CatalogueCall → Option AllowedRow
  | .allow slotId itemId position =>
    if key = (slotId, itemId) then some ⟨slotId, itemId, position⟩ else none
  | _ => none

/-- The conflict, if it is the one that a call records. -/
def conflict? (row : ConflictRow) : CatalogueCall → Option ConflictRow
  | .conflict itemId otherId => if row = ⟨itemId, otherId⟩ then some ⟨itemId, otherId⟩ else none
  | _ => none

/-- The offers with which a call replaces those for an item. -/
def offers? (id : String) : CatalogueCall → Option (List Offer)
  | .putOffers itemId offers => if id = itemId then some offers else none
  | _ => none

/-- The row of an offer for an item. -/
def offerRow (itemId : String) (o : Offer) : OfferRow :=
  ⟨itemId, o.trader.name, o.minLevel, o.price⟩

/-- The last of some offers for an item that has a key. -/
def lastOffer? (itemId : String) (offers : List Offer) (key : String × String × Int) :
    Option OfferRow :=
  (offers.reverse.map (offerRow itemId)).find? fun row => row.key = key

theorem last?_concat {α : Type} (select : CatalogueCall → Option α) (calls : List CatalogueCall)
    (call : CatalogueCall) :
    last? select (calls ++ [call]) = (select call).or (last? select calls) := by
  rw [last?, List.reverse_append, List.reverse_singleton, List.singleton_append,
    List.findSome?_cons]
  cases select call <;> rfl

section Tables

variable {κ : Type} {written : List CatalogueCall}

theorem rowsOf_write_self (s : Store) (call : CatalogueCall) :
    (call.write s).rowsOf call.table = call.rowsAfter (s.rowsOf call.table) :=
  s.rowsOf_put_self call.table _

/-- A call leaves the other tables as they are. -/
theorem rowsOf_write_of_ne (s : Store) {t : Table} (h : call.table ≠ t) :
    (call.write s).rowsOf t = s.rowsOf t :=
  s.rowsOf_put_of_ne h _

/-- A table stays as it was last written when a call writes another one. -/
theorem lastWritten_of_ne (t : Table) (key : t.Row → κ) (select : κ → CatalogueCall → Option t.Row)
    (h : LastWritten key (fun k => last? (select k) written) (s.rowsOf t)) (hne : call.table ≠ t)
    (hselect : ∀ k, select k call = none) :
    LastWritten key (fun k => last? (select k) (written ++ [call])) ((call.write s).rowsOf t) := by
  rw [rowsOf_write_of_ne s hne]
  refine h.congr fun k => ?_
  rw [last?_concat, hselect, Option.none_or]

/-- A table in which a call puts a row under its key is as it was last written. -/
theorem lastWritten_of_upsert [DecidableEq κ] (t : Table) (key : t.Row → κ)
    (select : κ → CatalogueCall → Option t.Row)
    (h : LastWritten key (fun k => last? (select k) written) (s.rowsOf t)) (new : t.Row)
    {hasKey : t.Row → Bool} {change : t.Row → t.Row}
    (hrows : (call.write s).rowsOf t = upsertRow hasKey change new (s.rowsOf t))
    (hkey : ∀ row, hasKey row = decide (key row = key new))
    (hchange : ∀ row, hasKey row = true → change row = new)
    (hselect : ∀ k, select k call = if k = key new then some new else none) :
    LastWritten key (fun k => last? (select k) (written ++ [call])) ((call.write s).rowsOf t) := by
  rw [hrows]
  refine (h.upsertRow hkey hchange).congr fun k => ?_
  rw [last?_concat, hselect]
  split <;> rfl

/-- Items are as they were last written. -/
theorem lastWritten_items
    (h : LastWritten Item.id (fun id => last? (item? id) written) (s.rowsOf .items))
    (call : CatalogueCall) :
    LastWritten Item.id (fun id => last? (item? id) (written ++ [call]))
      ((call.write s).rowsOf .items) := by
  cases call with
  | putItem item =>
    exact lastWritten_of_upsert .items Item.id item? h item (rowsOf_write_self s (putItem item))
      (fun _ => rfl) (fun _ _ => rfl) fun _ => rfl
  | _ => exact lastWritten_of_ne .items Item.id item? h nofun fun _ => rfl

/-- Slots are as they were last written. -/
theorem lastWritten_slots
    (h : LastWritten SlotRow.id (fun id => last? (slot? id) written) (s.rowsOf .slots))
    (call : CatalogueCall) :
    LastWritten SlotRow.id (fun id => last? (slot? id) (written ++ [call]))
      ((call.write s).rowsOf .slots) := by
  cases call with
  | putSlot ownerId slotId name position =>
    exact lastWritten_of_upsert .slots SlotRow.id slot? h ⟨slotId, ownerId, name, position⟩
      (rowsOf_write_self s (putSlot ownerId slotId name position)) (fun _ => rfl) (fun _ _ => rfl)
      fun _ => rfl
  | _ => exact lastWritten_of_ne .slots SlotRow.id slot? h nofun fun _ => rfl

/-- The items that fit slots are as they were last written. -/
theorem lastWritten_allowed
    (h : LastWritten AllowedRow.key (fun key => last? (allowed? key) written) (s.rowsOf .allowed))
    (call : CatalogueCall) :
    LastWritten AllowedRow.key (fun key => last? (allowed? key) (written ++ [call]))
      ((call.write s).rowsOf .allowed) := by
  cases call with
  | allow slotId itemId position =>
    have hkey : ∀ row : AllowedRow, (row.slotId == slotId && row.itemId == itemId) =
        decide (row.key = (slotId, itemId)) := by
      intro row
      rw [AllowedRow.key, Bool.eq_iff_iff]
      simp
    exact lastWritten_of_upsert .allowed AllowedRow.key allowed? h ⟨slotId, itemId, position⟩
      (rowsOf_write_self s (allow slotId itemId position)) hkey (fun _ _ => rfl) fun _ => rfl
  | _ => exact lastWritten_of_ne .allowed AllowedRow.key allowed? h nofun fun _ => rfl

/-- Each conflict that was recorded is there once. -/
theorem lastWritten_conflicts
    (h : LastWritten (fun row => row) (fun row => last? (conflict? row) written)
      (s.rowsOf .conflicts))
    (call : CatalogueCall) :
    LastWritten (fun row => row) (fun row => last? (conflict? row) (written ++ [call]))
      ((call.write s).rowsOf .conflicts) := by
  cases call with
  | conflict itemId otherId =>
    exact lastWritten_of_upsert .conflicts (fun row => row) conflict? h ⟨itemId, otherId⟩
      (rowsOf_write_self s (conflict itemId otherId)) (fun _ => rfl)
      (fun row hrow => beq_iff_eq.mp hrow) fun _ => rfl
  | _ => exact lastWritten_of_ne .conflicts (fun row => row) conflict? h nofun fun _ => rfl

/-! ### Offers -/

/-- What is left under a key after the offers for an item were set one after the other. -/
theorem lastWritten_setOffers {last? : String × String × Int → Option OfferRow}
    {rows : List OfferRow} (h : LastWritten OfferRow.key last? rows) (itemId : String)
    (offers : List Offer) :
    LastWritten OfferRow.key (fun key => (lastOffer? itemId offers key).or (last? key))
      (offers.foldl
        (fun rows o => Transaction.setOffer rows ⟨itemId, o.trader.name, o.minLevel, o.price⟩)
        rows) := by
  induction offers using List.reverseRecOn with
  | nil => exact h.congr fun _ => rfl
  | append_singleton offers o ih =>
    have hkept : ∀ row : OfferRow, (!(row.itemId == itemId && row.trader == o.trader.name &&
        row.minLevel == o.minLevel)) = decide (row.key ≠ (offerRow itemId o).key) := by
      intro row
      rw [OfferRow.key, OfferRow.key, offerRow, Bool.eq_iff_iff]
      simp [or_assoc]
    rw [List.foldl_append]
    refine (ih.replace hkept).congr fun key => ?_
    rw [lastOffer?, List.reverse_append, List.reverse_singleton, List.singleton_append,
      List.map_cons, List.find?_cons]
    by_cases hkey : key = (offerRow itemId o).key
    · rw [if_pos hkey, decide_eq_true hkey.symm]
      rfl
    · rw [if_neg hkey, decide_eq_false (Ne.symm hkey)]
      rfl

/-- What the last replacement of the offers for an item left under a key. -/
def offer? (written : List CatalogueCall) (key : String × String × Int) : Option OfferRow :=
  (last? (offers? key.1) written).bind fun offers => lastOffer? key.1 offers key

theorem lastOffer?_of_ne {itemId : String} {key : String × String × Int} (h : key.1 ≠ itemId)
    (offers : List Offer) : lastOffer? itemId offers key = none := by
  refine List.find?_eq_none.mpr fun row hrow hkey => h ?_
  obtain ⟨o, -, rfl⟩ := List.mem_map.mp hrow
  rw [← of_decide_eq_true hkey]
  rfl

/-- The offers for each item are those of the last replacement. -/
theorem lastWritten_offers (h : LastWritten OfferRow.key (offer? written) (s.rowsOf .offers))
    (call : CatalogueCall) :
    LastWritten OfferRow.key (offer? (written ++ [call])) ((call.write s).rowsOf .offers) := by
  have hother : call.table ≠ .offers → (∀ id, offers? id call = none) →
      LastWritten OfferRow.key (offer? (written ++ [call])) ((call.write s).rowsOf .offers) := by
    intro hne hselect
    rw [rowsOf_write_of_ne s hne]
    refine h.congr fun key => ?_
    rw [offer?, last?_concat, hselect, Option.none_or, offer?]
  cases call with
  | putOffers itemId offers =>
    have hkept : ∀ row : OfferRow, (row.itemId != itemId) = decide (row.key.1 ≠ itemId) := by
      intro row
      rw [OfferRow.key, Bool.eq_iff_iff]
      simp
    have hfilter : LastWritten OfferRow.key
        (fun key => if key.1 ≠ itemId then offer? written key else none)
        ((s.rowsOf .offers).filter fun row : OfferRow => row.itemId != itemId) :=
      LastWritten.filter h hkept
    rw [show ((putOffers itemId offers).write s).rowsOf .offers = _ from
      rowsOf_write_self s (putOffers itemId offers)]
    refine (lastWritten_setOffers hfilter itemId offers).congr fun key => ?_
    rw [offer?, last?_concat, offers?]
    by_cases hitem : key.1 = itemId
    · rw [if_pos hitem, if_neg (not_not.mpr hitem), hitem, Option.or_none]
      rfl
    · rw [if_neg hitem, if_pos hitem, lastOffer?_of_ne hitem, Option.none_or, Option.none_or,
        offer?]
  | _ => exact hother nofun fun _ => rfl

end Tables

/-! ### After a run -/

/-- The tables of the catalogue hold what some calls wrote, and what a row refers to was written. -/
structure Traced (s : Store) (written : List CatalogueCall) : Prop where
  tables : s.HasCatalogue
  items : LastWritten Item.id (fun id => last? (item? id) written) (s.rowsOf .items)
  slots : LastWritten SlotRow.id (fun id => last? (slot? id) written) (s.rowsOf .slots)
  allowed : LastWritten AllowedRow.key (fun key => last? (allowed? key) written) (s.rowsOf .allowed)
  conflicts : LastWritten (fun row => row) (fun row => last? (conflict? row) written)
    (s.rowsOf .conflicts)
  offers : LastWritten OfferRow.key (offer? written) (s.rowsOf .offers)
  owned : ∀ slot ∈ s.rowsOf .slots, (last? (item? slot.ownerId) written).isSome
  fitting : ∀ row ∈ s.rowsOf .allowed,
    (last? (slot? row.slotId) written).isSome ∧ (last? (item? row.itemId) written).isSome

variable {written : List CatalogueCall}

/-- What was written once is there for good. -/
theorem last?_isSome_concat {α : Type} {select : CatalogueCall → Option α}
    (h : (last? select written).isSome) (call : CatalogueCall) :
    (last? select (written ++ [call])).isSome := by
  rw [last?_concat, Option.isSome_or, h, Bool.or_true]

theorem hasCatalogue_write (h : s.HasCatalogue) (call : CatalogueCall) :
    (call.write s).HasCatalogue := by
  have hkept : ∀ t, (s.rows? t).isSome → ((call.write s).rows? t).isSome := by
    intro t ht
    by_cases htable : call.table = t
    · subst htable
      rw [write, s.rows?_put_self]
      rfl
    · rwa [write, s.rows?_put_of_ne htable]
  exact ⟨hkept _ h.items, hkept _ h.slots, hkept _ h.allowed, hkept _ h.conflicts, hkept _ h.offers⟩

/-- **A call that succeeds** is the last one that was made. -/
theorem Traced.write (h : Traced s written) (hcall : ¬ call.Dangles s) :
    Traced (call.write s) (written ++ [call]) := by
  have hitem : ∀ id, (∃ item ∈ s.rowsOf .items, item.id = id) →
      (last? (item? id) (written ++ [call])).isSome := fun id hid =>
    last?_isSome_concat (h.items.exists_iff.mp hid) call
  have hslot : ∀ id, (∃ slot ∈ s.rowsOf .slots, slot.id = id) →
      (last? (slot? id) (written ++ [call])).isSome := fun id hid =>
    last?_isSome_concat (h.slots.exists_iff.mp hid) call
  have hslots := lastWritten_slots h.slots call
  have hallowed := lastWritten_allowed h.allowed call
  refine ⟨hasCatalogue_write h.tables call, lastWritten_items h.items call, hslots, hallowed,
    lastWritten_conflicts h.conflicts call, lastWritten_offers h.offers call, fun slot hmem => ?_,
    fun row hmem => ?_⟩
  · -- A slot was there before, or its owner was required.
    have hlast := (hslots.mem_iff slot).mp hmem
    rw [last?_concat] at hlast
    cases hselect : slot? slot.id call with
    | none =>
      rw [hselect, Option.none_or] at hlast
      exact last?_isSome_concat (h.owned slot ((h.slots.mem_iff slot).mpr hlast)) call
    | some slot' =>
      rw [hselect, Option.some_or] at hlast
      obtain rfl := Option.some.inj hlast
      cases call with
      | putSlot ownerId slotId name position =>
        rw [slot?] at hselect
        split_ifs at hselect
        obtain rfl := Option.some.inj hselect
        exact hitem ownerId (by simpa [Dangles] using hcall)
      | _ => cases hselect
  · have hlast := (hallowed.mem_iff row).mp hmem
    rw [last?_concat] at hlast
    cases hselect : allowed? row.key call with
    | none =>
      rw [hselect, Option.none_or] at hlast
      obtain ⟨hslotId, hitemId⟩ := h.fitting row ((h.allowed.mem_iff row).mpr hlast)
      exact ⟨last?_isSome_concat hslotId call, last?_isSome_concat hitemId call⟩
    | some row' =>
      rw [hselect, Option.some_or] at hlast
      obtain rfl := Option.some.inj hlast
      cases call with
      | allow slotId itemId position =>
        rw [allowed?] at hselect
        split_ifs at hselect
        obtain rfl := Option.some.inj hselect
        obtain ⟨hknown, hplace⟩ := not_or.mp hcall
        exact ⟨hslot slotId (by simpa using hplace), hitem itemId (by simpa using hknown)⟩
      | _ => cases hselect

/-- Nothing was written to an empty catalogue. -/
theorem traced_of_blank (h : s.BlankCatalogue) : Traced s [] where
  tables := by
    obtain ⟨hitems, hslots, hallowed, hconflicts, hoffers⟩ := h
    constructor <;> simp [*]
  items := Store.rowsOf_eq h.items ▸ LastWritten.nil Item.id
  slots := Store.rowsOf_eq h.slots ▸ LastWritten.nil SlotRow.id
  allowed := Store.rowsOf_eq h.allowed ▸ LastWritten.nil AllowedRow.key
  conflicts := Store.rowsOf_eq h.conflicts ▸ LastWritten.nil fun row => row
  offers := Store.rowsOf_eq h.offers ▸ LastWritten.nil OfferRow.key
  owned := Store.rowsOf_eq h.slots ▸ nofun
  fitting := Store.rowsOf_eq h.allowed ▸ nofun

/-- **After any run** on an empty catalogue its tables hold what the calls wrote that succeeded. -/
theorem traced_after (hstart : start.BlankCatalogue) (calls : List CatalogueCall) :
    Traced (after calls start) (made start calls) := by
  induction calls using List.reverseRecOn with
  | nil => exact traced_of_blank hstart
  | append_singleton calls call ih =>
    rw [after_concat, made_append, made]
    by_cases hcall : call.Dangles (after calls start)
    · rw [run_of_dangles ih.tables hcall]
      exact (List.append_nil (made start calls)).symm ▸ ih
    · rw [run_of_not_dangles ih.tables hcall]
      exact ih.write hcall

end CatalogueCall

end Gunsmith
