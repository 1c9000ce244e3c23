/-
  What is read of the catalogue after it was written.

  After any run of calls on an empty catalogue the tables hold what was last written
  (`CatalogueCall.Traced`), and each question reads them in a fixed order.  So the calls that
  succeeded say what is answered: those rows, strictly sorted, that the question is about and that
  were last written under their keys.  There is only one such list, so stores to which the same was
  written cannot be told apart (`CatalogueCall.Chronicle.answers_eq`).

  A source of catalogue data that was created after the run gives these answers, whatever it was
  asked before (`Snapshot.faithful_asked`).  `CatalogueCall.Chronicle` collects what holds after a
  run, and `CatalogueCall.chronicle` proves it.
-/
import Gunsmith.Proofs.Snapshot
import Gunsmith.Proofs.Store.Traced
import Mathlib.Data.Prod.Lex
import Mathlib.Data.Set.List
import Mathlib.Data.String.Basic

namespace Gunsmith

namespace Store

variable {s : Store}

/-! ### Reading tables that exist -/

theorem rows_rowsOf {t : Table} (h : (s.rows? t).isSome) : s.rows t = .ok (s.rowsOf t) :=
  rows_eq (rows?_eq h)

theorem slotsOf_eq (h : s.HasCatalogue) (id : String) :
    s.slotsOf id = .ok ((((s.rowsOf .slots).filter fun row => row.ownerId == id).mergeSort
      fun a b => placedBefore a.position a.id b.position b.id).map
        fun row => ⟨row.id, row.name⟩) := by
  rw [slotsOf, rows_rowsOf h.slots]
  rfl

theorem allowedIn_eq (h : s.HasCatalogue) (id : String) :
    s.allowedIn id = .ok ((((s.rowsOf .allowed).filter fun row => row.slotId == id).mergeSort
      fun a b => placedBefore a.position a.itemId b.position b.itemId).filterMap fun row =>
        ((s.rowsOf .items).find? fun item => item.id = row.itemId).map fun item =>
          ⟨item.id, item.name⟩) := by
  rw [allowedIn, rows_rowsOf h.allowed, rows_rowsOf h.items]
  rfl

theorem propertiesOf_eq (h : s.HasCatalogue) (id : String) :
    s.propertiesOf id =
      match (s.rowsOf .items).find? fun item => item.id = id with
      | none => .error (.notFound "item" id)
      | some item => .ok ⟨item.modifiers,
          (((s.rowsOf .conflicts).filter fun row => row.itemId == id).map
            ConflictRow.otherId).mergeSort fun a b => decide (a ≤ b)⟩ := by
  rw [propertiesOf, rows_rowsOf h.items, rows_rowsOf h.conflicts]
  rfl

theorem offersFor_eq (h : s.HasCatalogue) (id : String) :
    s.offersFor id = (((s.rowsOf .offers).filter fun row => row.itemId == id).mergeSort fun a b =>
      decide (a.trader < b.trader ∨ (a.trader = b.trader ∧ a.minLevel ≤ b.minLevel))).mapM
        offerOf := by
  rw [offersFor, rows_rowsOf h.offers]
  rfl

/-- The order by position and id is lexicographic. -/
theorem placedBefore_eq (position₁ : Int) (id₁ : String) (position₂ : Int) (id₂ : String) :
    placedBefore position₁ id₁ position₂ id₂ =
      decide (toLex (position₁, id₁) ≤ toLex (position₂, id₂)) := by
  rw [placedBefore, decide_eq_decide, Prod.Lex.toLex_le_toLex]

end Store

namespace CatalogueCall

variable {start s : Store} {calls written : List CatalogueCall} {id : String}

/-- What was last written was written by one of the calls. -/
theorem exists_of_last? {α : Type} {select : CatalogueCall → Option α} {a : α}
    (h : last? select written = some a) : ∃ call ∈ written, select call = some a := by
  obtain ⟨call, hcall, hselect⟩ := List.exists_of_findSome?_eq_some h
  exact ⟨call, List.mem_reverse.mp hcall, hselect⟩

/-- A conflict was recorded exactly if some call records it. -/
theorem last?_conflict_iff {row : ConflictRow} :
    last? (conflict? row) written = some row ↔ .conflict row.itemId row.otherId ∈ written := by
  have hselect : ∀ call row', conflict? row call = some row' →
      row' = row ∧ call = .conflict row.itemId row.otherId := by
    intro call row' hselect
    cases call with
    | conflict itemId otherId =>
      rw [conflict?] at hselect
      split_ifs at hselect with hrow
      exact ⟨(hrow.trans (Option.some.inj hselect)).symm, by rw [hrow]⟩
    | _ => cases hselect
  constructor
  · intro hlast
    obtain ⟨call, hcall, hrow⟩ := exists_of_last? hlast
    exact (hselect call row hrow).2 ▸ hcall
  · intro hcall
    have hsome : (last? (conflict? row) written).isSome := by
      refine List.findSome?_isSome_iff.mpr ⟨_, List.mem_reverse.mpr hcall, ?_⟩
      rw [conflict?, if_pos rfl]
      rfl
    obtain ⟨row', hlast⟩ := Option.isSome_iff_exists.mp hsome
    obtain ⟨call, -, hrow⟩ := exists_of_last? hlast
    rw [hlast, (hselect call row' hrow).1]

/-- What is kept of each element of a list stands beside it if nothing is left out. -/
theorem forall₂_filterMap_self {α β : Type} {R : α → β → Prop} {f : α → Option β} {xs : List α}
    (h : ∀ x ∈ xs, ∃ y, f x = some y ∧ R x y) : List.Forall₂ R xs (xs.filterMap f) := by
  induction xs with
  | nil => exact List.Forall₂.nil
  | cons x xs ih =>
    obtain ⟨⟨y, hy, hR⟩, hxs⟩ := List.forall_mem_cons.mp h
    rw [List.filterMap_cons_some hy]
    exact List.Forall₂.cons hR (ih hxs)

/-! ### Answers -/

/-- The slots that an item was last given, by position and then by id. -/
def ListsSlots (written : List CatalogueCall) (id : String)
    (answer : Except StoreError (List SlotRecord)) : Prop :=
  ∃ rows : List SlotRow, answer = .ok (rows.map fun row => ⟨row.id, row.name⟩) ∧
    (rows.Pairwise fun a b => toLex (a.position, a.id) < toLex (b.position, b.id)) ∧
    ∀ row, row ∈ rows ↔ row.ownerId = id ∧ last? (slot? row.id) written = some row

/-- The items that fit a slot, by the last position and then by id, with the last names. -/
def ListsAllowed (written : List CatalogueCall) (id : String)
    (answer : Except StoreError (List AllowedItem)) : Prop :=
  ∃ (rows : List AllowedRow) (found : List AllowedItem), answer = .ok found ∧
    (rows.Pairwise fun a b => toLex (a.position, a.itemId) < toLex (b.position, b.itemId)) ∧
    (∀ row, row ∈ rows ↔ row.slotId = id ∧ last? (allowed? row.key) written = some row) ∧
    List.Forall₂
      (fun row a => ∃ item, last? (item? row.itemId) written = some item ∧
        a = ⟨row.itemId, item.name⟩)
      rows found

/-- The last modifiers of an item, and the conflicts recorded for it in ascending order; a failure
if the item was never written. -/
def TellsProperties (written : List CatalogueCall) (id : String)
    (answer : Except StoreError Properties) : Prop :=
  match last? (item? id) written with
  | none => answer = .error (.notFound "item" id)
  | some item => ∃ others : List String, answer = .ok ⟨item.modifiers, others⟩ ∧
    others.Pairwise (· < ·) ∧ ∀ other, other ∈ others ↔ .conflict id other ∈ written

/-- The offers of the last replacement for an item, the last of each trader at each level, by the
name of the trader and then by level. -/
def ListsOffers (written : List CatalogueCall) (id : String)
    (answer : Except StoreError (List Offer)) : Prop :=
  ∃ found : List Offer, answer = .ok found ∧
    (found.Pairwise fun a b =>
      toLex (a.trader.name, a.minLevel) < toLex (b.trader.name, b.minLevel)) ∧
    ∀ o, o ∈ found ↔ ∃ offers, last? (offers? id) written = some offers ∧
      offers.reverse.find? (fun o' => o'.trader = o.trader ∧ o'.minLevel = o.minLevel) = some o

theorem Traced.listsSlots (h : Traced s written) (id : String) :
    ListsSlots written id (s.slotsOf id) := by
  obtain ⟨hsorted, hmem⟩ := h.slots.listed (fun row : SlotRow => row.ownerId == id)
    (fun row => toLex (row.position, row.id))
    (fun a b => Store.placedBefore_eq a.position a.id b.position b.id)
    fun a b _ _ hrank => (Prod.mk.inj (toLex.injective hrank)).2
  refine ⟨_, Store.slotsOf_eq h.tables id, hsorted, fun row => ?_⟩
  rw [hmem, beq_iff_eq]

theorem Traced.listsAllowed (h : Traced s written) (id : String) :
    ListsAllowed written id (s.allowedIn id) := by
  obtain ⟨hsorted, hmem⟩ := h.allowed.listed (fun row : AllowedRow => row.slotId == id)
    (fun row => toLex (row.position, row.itemId))
    (fun a b => Store.placedBefore_eq a.position a.itemId b.position b.itemId)
    fun a b ha hb hrank => by
      rw [AllowedRow.key, AllowedRow.key, beq_iff_eq.mp ha, beq_iff_eq.mp hb,
        (Prod.mk.inj (toLex.injective hrank)).2]
  refine ⟨_, _, Store.allowedIn_eq h.tables id, hsorted, fun row => ?_, ?_⟩
  · rw [hmem, beq_iff_eq]
  · -- Every row names an item that was written, so none is left out.
    refine forall₂_filterMap_self fun row hrow => ?_
    obtain ⟨-, hlast⟩ := (hmem row).mp hrow
    obtain ⟨-, hitem⟩ := h.fitting row ((h.allowed.mem_iff row).mpr hlast)
    obtain ⟨item, hitem⟩ := Option.isSome_iff_exists.mp hitem
    refine ⟨⟨item.id, item.name⟩, ?_, item, hitem, ?_⟩
    · rw [h.items.find?_eq, hitem]
      rfl
    · rw [h.items.keyed _ item hitem]

theorem Traced.tellsProperties (h : Traced s written) (id : String) :
    TellsProperties written id (s.propertiesOf id) := by
  rw [TellsProperties, Store.propertiesOf_eq h.tables, h.items.find?_eq]
  cases last? (item? id) written with
  | none => rfl
  | some item =>
    have hown : ∀ row : ConflictRow,
        row ∈ (s.rowsOf .conflicts).filter (fun row => row.itemId == id) ↔
          row.itemId = id ∧ .conflict row.itemId row.otherId ∈ written := by
      intro row
      rw [List.mem_filter, h.conflicts.mem_iff, last?_conflict_iff, beq_iff_eq, and_comm]
    have hrows : ((s.rowsOf .conflicts).filter fun row => row.itemId == id).Nodup :=
      (List.map_id' (s.rowsOf .conflicts) ▸ h.conflicts.nodup).filter _
    refine ⟨_, rfl, pairwise_lt_mergeSort (fun other => other) (fun _ _ => rfl) ?_,
      fun other => ?_⟩
    · rw [List.map_id']
      refine hrows.map_on fun a ha b hb hother => ?_
      obtain ⟨a, _⟩ := a
      obtain ⟨b, _⟩ := b
      rw [ConflictRow.mk.injEq]
      exact ⟨((hown _).mp ha).1.trans ((hown _).mp hb).1.symm, hother⟩
    · rw [List.mem_mergeSort, List.mem_map]
      constructor
      · rintro ⟨row, hrow, rfl⟩
        obtain ⟨rfl, hconflict⟩ := (hown row).mp hrow
        exact hconflict
      · exact fun hconflict => ⟨⟨id, other⟩, (hown _).mpr ⟨rfl, hconflict⟩, rfl⟩

/-! ### Offers -/

/-- No level that a call asks for is larger than a byte. -/
def AsksBytes : CatalogueCall → Prop
  | .putOffers _ offers => ∀ o ∈ offers, o.minLevel ≤ 255
  | _ => True

theorem offerRow_injective (id : String) : Function.Injective (offerRow id) := by
  intro a b hrow
  obtain ⟨-, hname, hlevel, hprice⟩ := OfferRow.mk.inj hrow
  obtain ⟨trader, minLevel, price⟩ := a
  rw [Offer.mk.injEq]
  exact ⟨Trader.name_injective hname, Int.ofNat_inj.mp hlevel, hprice⟩

/-- The row of an offer reads as the offer. -/
theorem offerOf_offerRow {o : Offer} (h : o.minLevel ≤ 255) (id : String) :
    Store.offerOf (offerRow id o) = .ok o := by
  have hname : Trader.parse (offerRow id o).trader = .ok o.trader := Trader.parse_name o.trader
  have hlevel : (offerRow id o).minLevel = o.minLevel := rfl
  have hrange : ¬ ((o.minLevel : Int) < 0 ∨ 255 < (o.minLevel : Int)) := by omega
  rw [Store.offerOf_eq, hname, hlevel]
  exact if_neg hrange

theorem mapM_offerRow {found : List Offer} (h : ∀ o ∈ found, o.minLevel ≤ 255) (id : String) :
    (found.map (offerRow id)).mapM Store.offerOf = .ok found := by
  induction found with
  | nil => rfl
  | cons o found ih =>
    obtain ⟨ho, hfound⟩ := List.forall_mem_cons.mp h
    rw [List.map_cons, List.mapM_cons, offerOf_offerRow ho, ih hfound]
    rfl

/-- What is left under the key of an offer is the offer itself if it is the last of its kind. -/
theorem offer?_offerRow {o : Offer} :
    offer? written (offerRow id o).key = some (offerRow id o) ↔
      ∃ offers, last? (offers? id) written = some offers ∧
        offers.reverse.find? (fun o' => o'.trader = o.trader ∧ o'.minLevel = o.minLevel) =
          some o := by
  have hkey : (fun row : OfferRow => decide (row.key = (offerRow id o).key)) ∘ offerRow id =
      fun o' => decide (o'.trader = o.trader ∧ o'.minLevel = o.minLevel) := by
    funext o'
    refine decide_eq_decide.mpr ⟨fun hrow => ?_, fun ⟨htrader, hlevel⟩ => ?_⟩
    · obtain ⟨-, hpair⟩ := Prod.mk.inj hrow
      obtain ⟨hname, hlevel⟩ := Prod.mk.inj hpair
      exact ⟨Trader.name_injective hname, Int.ofNat_inj.mp hlevel⟩
    · rw [OfferRow.key, OfferRow.key, offerRow, offerRow, htrader, hlevel]
  rw [offer?, Option.bind_eq_some_iff]
  refine exists_congr fun offers => and_congr_right fun _ => ?_
  rw [lastOffer?, List.find?_map]
  show Option.map (offerRow id) (List.find? ((fun row : OfferRow =>
    decide (row.key = (offerRow id o).key)) ∘ offerRow id) offers.reverse) = _ ↔ _
  rw [hkey, ← Option.map_some, (Option.map_injective (offerRow_injective id)).eq_iff]

/-- An offer that is left was one of those of a call. -/
theorem exists_of_offer? {key : String × String × Int} {row : OfferRow}
    (h : offer? written key = some row) :
    ∃ offers, .putOffers key.1 offers ∈ written ∧ ∃ o ∈ offers, offerRow key.1 o = row := by
  obtain ⟨offers, hoffers, hfind⟩ := Option.bind_eq_some_iff.mp h
  obtain ⟨o, ho, hrow⟩ := List.mem_map.mp (List.mem_of_find?_eq_some hfind)
  refine ⟨offers, ?_, o, List.mem_reverse.mp ho, hrow⟩
  obtain ⟨call, hcall, hselect⟩ := exists_of_last? hoffers
  cases call with
  | putOffers itemId offers' =>
    rw [offers?] at hselect
    split_ifs at hselect with hid
    rwa [hid, ← Option.some.inj hselect]
  | _ => cases hselect

theorem Traced.listsOffers (h : Traced s written) (hbytes : ∀ call ∈ written, call.AsksBytes)
    (id : String) : ListsOffers written id (s.offersFor id) := by
  have hle : ∀ a b : OfferRow,
      decide (a.trader < b.trader ∨ (a.trader = b.trader ∧ a.minLevel ≤ b.minLevel)) =
        decide (toLex (a.trader, a.minLevel) ≤ toLex (b.trader, b.minLevel)) := by
    intro a b
    rw [decide_eq_decide, Prod.Lex.toLex_le_toLex]
  obtain ⟨hsorted, hmem⟩ := h.offers.listed (fun row : OfferRow => row.itemId == id)
    (fun row => toLex (row.trader, row.minLevel)) hle
    fun a b ha hb hrank => by
      obtain ⟨htrader, hlevel⟩ := Prod.mk.inj (toLex.injective hrank)
      rw [OfferRow.key, OfferRow.key, beq_iff_eq.mp ha, beq_iff_eq.mp hb, htrader, hlevel]
  rw [Store.offersFor_eq h.tables]
  generalize ((s.rowsOf .offers).filter fun row : OfferRow => row.itemId == id).mergeSort _ = rows
    at hsorted hmem
  -- The rows are those of offers, whose levels are bytes.
  have hrow : ∀ row ∈ rows, ∃ o, offerRow id o = row ∧ o.minLevel ≤ 255 := by
    intro row hrow
    obtain ⟨hown, hlast⟩ := (hmem row).mp hrow
    obtain ⟨offers, hcall, o, ho, hrow⟩ := exists_of_offer? hlast
    exact ⟨o, beq_iff_eq.mp hown ▸ hrow, hbytes _ hcall o ho⟩
  obtain ⟨found, rfl⟩ : ∃ found, List.map (offerRow id) found = rows := by
    refine Set.mem_range.mp ?_
    rw [Set.range_list_map]
    exact fun row hmem => (hrow row hmem).imp fun _ ho => ho.1
  have hfound : ∀ o ∈ found, o.minLevel ≤ 255 := by
    intro o ho
    obtain ⟨o', hsame, hle⟩ := hrow _ (List.mem_map_of_mem ho)
    exact offerRow_injective id hsame ▸ hle
  refine ⟨found, mapM_offerRow hfound id, ?_, fun o => ?_⟩
  · refine (List.pairwise_map.mp hsorted).imp fun hlt => ?_
    rw [Prod.Lex.toLex_lt_toLex] at hlt ⊢
    exact hlt.imp_right fun hlt => hlt.imp_right Int.ofNat_lt.mp
  · have hown : ((offerRow id o).itemId == id) = true := beq_self_eq_true id
    rw [← List.mem_map_of_injective (offerRow_injective id), hmem, and_iff_right hown,
      offer?_offerRow]

/-! ### What holds after a run -/

/-- What holds of a store that some calls have written, and of further calls on it. -/
structure Chronicle (s : Store) (written : List CatalogueCall) : Prop where
  /-- A call fails exactly if it refers to something that there is not, and then changes nothing. -/
  outcome : ∀ call : CatalogueCall,
    (call.Dangles s ∧
      call.run s = (.error (.danglingReference "FOREIGN KEY constraint failed"), s)) ∨
    (¬ call.Dangles s ∧ (call.run s).1 = .ok ())
  /-- A call writes no other table, so whatever hangs on an item or on a slot stays. -/
  keeps : ∀ (call : CatalogueCall) (t : Table), call.table ≠ t → (call.run s).2.rows? t = s.rows? t
  /-- An item stays as it is unless it is written again, under its id. -/
  keepsItems : ∀ (call : CatalogueCall), ∀ item ∈ s.rowsOf .items,
    ∃ item' ∈ (call.run s).2.rowsOf .items, item'.id = item.id ∧
      (item' = item ∨ call = .putItem item')
  /-- A slot stays as it is unless it is written again, under its id. -/
  keepsSlots : ∀ (call : CatalogueCall), ∀ slot ∈ s.rowsOf .slots,
    ∃ slot' ∈ (call.run s).2.rowsOf .slots, slot'.id = slot.id ∧
      (slot' = slot ∨ call = .putSlot slot'.ownerId slot'.id slot'.name slot'.position)
  /-- Every slot is one of an item. -/
  owned : ∀ slot ∈ s.rowsOf .slots, ∃ item ∈ s.rowsOf .items, item.id = slot.ownerId
  /-- What fits a slot is an item, and the slot is there. -/
  fitting : ∀ row ∈ s.rowsOf .allowed,
    (∃ slot ∈ s.rowsOf .slots, slot.id = row.slotId) ∧
      ∃ item ∈ s.rowsOf .items, item.id = row.itemId
  /-- Whatever a fresh source was asked before, this is what it answers. -/
  slots : ∀ questions id,
    ListsSlots written id ((Snapshot.provider s).slots id (Snapshot.asked s questions)).1
  allowed : ∀ questions id,
    ListsAllowed written id ((Snapshot.provider s).allowed id (Snapshot.asked s questions)).1
  properties : ∀ questions id,
    TellsProperties written id ((Snapshot.provider s).properties id (Snapshot.asked s questions)).1
  offers : ∀ questions id,
    ListsOffers written id ((Snapshot.provider s).offers id (Snapshot.asked s questions)).1

theorem item?_eq_some {call : CatalogueCall} {item : Item} (h : item? id call = some item) :
    call = .putItem item := by
  cases call with
  | putItem item' =>
    rw [item?] at h
    split_ifs at h
    rw [Option.some.inj h]
  | _ => cases h

theorem slot?_eq_some {call : CatalogueCall} {slot : SlotRow} (h : slot? id call = some slot) :
    call = .putSlot slot.ownerId slot.id slot.name slot.position := by
  cases call with
  | putSlot ownerId slotId name position =>
    rw [slot?] at h
    split_ifs at h
    rw [← Option.some.inj h]
  | _ => cases h

/-- A row stays in its table unless the call writes another one under its key. -/
theorem exists_written {α κ : Type} {key : α → κ} {select : κ → CatalogueCall → Option α}
    {call : CatalogueCall} {rows rows' : List α}
    (h : LastWritten key (fun k => last? (select k) written) rows)
    (h' : LastWritten key (fun k => last? (select k) (written ++ [call])) rows') :
    ∀ row ∈ rows, ∃ row' ∈ rows', key row' = key row ∧
      (row' = row ∨ select (key row) call = some row') := by
  intro row hrow
  have hlast : last? (select (key row)) written = some row := (h.mem_iff row).mp hrow
  have hnext := last?_concat (select (key row)) written call
  cases hselect : select (key row) call with
  | none =>
    rw [hselect, Option.none_or, hlast] at hnext
    exact ⟨row, (h'.mem_iff row).mpr hnext, rfl, Or.inl rfl⟩
  | some row' =>
    rw [hselect, Option.some_or] at hnext
    have hkey : key row' = key row := h'.keyed _ row' hnext
    exact ⟨row', (h'.mem_iff row').mpr (hkey.symm ▸ hnext), hkey, Or.inr rfl⟩

/-- A store that holds what some calls wrote. -/
theorem Traced.chronicled (h : Traced s written) (hbytes : ∀ call ∈ written, call.AsksBytes) :
    Chronicle s written where
  outcome call := by
    by_cases hcall : call.Dangles s
    · exact Or.inl ⟨hcall, run_of_dangles h.tables hcall⟩
    · exact Or.inr ⟨hcall, congrArg Prod.fst (run_of_not_dangles h.tables hcall)⟩
  keeps call t hne :=
    run_cases (P := fun s' => s'.rows? t = s.rows? t) h.tables rfl fun _ =>
      s.rows?_put_of_ne hne _
  keepsItems call item hitem := by
    refine run_cases (P := fun s' => ∃ item' ∈ s'.rowsOf .items, item'.id = item.id ∧
      (item' = item ∨ call = .putItem item')) h.tables
      ⟨item, hitem, rfl, Or.inl rfl⟩ fun hcall => ?_
    obtain ⟨item', hmem, hid, hor⟩ := exists_written h.items (h.write hcall).items item hitem
    exact ⟨item', hmem, hid, hor.imp_right item?_eq_some⟩
  keepsSlots call slot hslot := by
    refine run_cases (P := fun s' => ∃ slot' ∈ s'.rowsOf .slots, slot'.id = slot.id ∧
      (slot' = slot ∨ call = .putSlot slot'.ownerId slot'.id slot'.name slot'.position)) h.tables
      ⟨slot, hslot, rfl, Or.inl rfl⟩ fun hcall => ?_
    obtain ⟨slot', hmem, hid, hor⟩ := exists_written h.slots (h.write hcall).slots slot hslot
    exact ⟨slot', hmem, hid, hor.imp_right slot?_eq_some⟩
  owned slot hslot := h.items.exists_iff.mpr (h.owned slot hslot)
  fitting row hrow := (h.fitting row hrow).imp h.slots.exists_iff.mpr h.items.exists_iff.mpr
  slots questions id :=
    Snapshot.remembering_answer (Snapshot.faithful_asked s questions).slots ▸ h.listsSlots id
  allowed questions id :=
    Snapshot.remembering_answer (Snapshot.faithful_asked s questions).allowed ▸ h.listsAllowed id
  properties questions id :=
    Snapshot.remembering_answer (Snapshot.faithful_asked s questions).properties ▸
      h.tellsProperties id
  offers questions id :=
    Snapshot.remembering_answer (Snapshot.faithful_asked s questions).offers ▸
      h.listsOffers hbytes id

/-! ### One catalogue for what was written -/

theorem ListsSlots.unique {answer answer' : Except StoreError (List SlotRecord)}
    (h : ListsSlots written id answer) (h' : ListsSlots written id answer') : answer = answer' := by
  obtain ⟨rows, rfl, hsorted, hmem⟩ := h
  obtain ⟨rows', rfl, hsorted', hmem'⟩ := h'
  rw [eq_of_pairwise_lt hsorted hsorted' fun row => (hmem row).trans (hmem' row).symm]

theorem ListsAllowed.unique {answer answer' : Except StoreError (List AllowedItem)}
    (h : ListsAllowed written id answer) (h' : ListsAllowed written id answer') :
    answer = answer' := by
  obtain ⟨rows, found, rfl, hsorted, hmem, hnames⟩ := h
  obtain ⟨rows', found', rfl, hsorted', hmem', hnames'⟩ := h'
  obtain rfl := eq_of_pairwise_lt hsorted hsorted' fun row => (hmem row).trans (hmem' row).symm
  have hunique : Relator.RightUnique fun (row : AllowedRow) (a : AllowedItem) =>
      ∃ item, last? (item? row.itemId) written = some item ∧ a = ⟨row.itemId, item.name⟩ := by
    rintro row _ _ ⟨item, hitem, rfl⟩ ⟨item', hitem', rfl⟩
    rw [Option.some.inj (hitem.symm.trans hitem')]
  rw [hunique.forall₂ hnames hnames']

theorem TellsProperties.unique {answer answer' : Except StoreError Properties}
    (h : TellsProperties written id answer) (h' : TellsProperties written id answer') :
    answer = answer' := by
  rw [TellsProperties] at h h'
  cases hlast : last? (item? id) written with
  | none =>
    rw [hlast] at h h'
    exact h.trans h'.symm
  | some item =>
    rw [hlast] at h h'
    obtain ⟨others, rfl, hsorted, hmem⟩ := h
    obtain ⟨others', rfl, hsorted', hmem'⟩ := h'
    rw [eq_of_pairwise_lt hsorted hsorted' fun other => (hmem other).trans (hmem' other).symm]

theorem ListsOffers.unique {answer answer' : Except StoreError (List Offer)}
    (h : ListsOffers written id answer) (h' : ListsOffers written id answer') :
    answer = answer' := by
  obtain ⟨found, rfl, hsorted, hmem⟩ := h
  obtain ⟨found', rfl, hsorted', hmem'⟩ := h'
  rw [eq_of_pairwise_lt hsorted hsorted' fun o => (hmem o).trans (hmem' o).symm]

/-- Where the same was written, whatever was asked before, everything is answered the same. -/
theorem Chronicle.answers_eq {s' : Store} (h : Chronicle s written) (h' : Chronicle s' written)
    (questions questions' : List (Question × String)) (id : String) :
    ((Snapshot.provider s).slots id (Snapshot.asked s questions)).1 =
      ((Snapshot.provider s').slots id (Snapshot.asked s' questions')).1 ∧
    ((Snapshot.provider s).allowed id (Snapshot.asked s questions)).1 =
      ((Snapshot.provider s').allowed id (Snapshot.asked s' questions')).1 ∧
    ((Snapshot.provider s).properties id (Snapshot.asked s questions)).1 =
      ((Snapshot.provider s').properties id (Snapshot.asked s' questions')).1 ∧
    ((Snapshot.provider s).offers id (Snapshot.asked s questions)).1 =
      ((Snapshot.provider s').offers id (Snapshot.asked s' questions')).1 :=
  ⟨(h.slots questions id).unique (h'.slots questions' id),
    (h.allowed questions id).unique (h'.allowed questions' id),
    (h.properties questions id).unique (h'.properties questions' id),
    (h.offers questions id).unique (h'.offers questions' id)⟩

/-! ### After any run -/

/-- **The catalogue is what was written to it.** After any run of calls on a store whose catalogue
is empty, the calls that succeeded determine what a fresh source answers about every id. -/
theorem chronicle (hstart : start.BlankCatalogue) (hbytes : ∀ call ∈ calls, call.AsksBytes) :
    Chronicle (after calls start) (made start calls) :=
  (traced_after hstart calls).chronicled fun call hcall =>
    hbytes call ((made_sublist calls start).subset hcall)

/-- A stock fits a slot of a rifle and is then written again, as a weapon; a conflict is recorded
twice, and offers are replaced.  The fourth call names an owner that there is not. -/
def sampleCalls : List CatalogueCall :=
  [.putItem ⟨"rifle", "Rifle", .weapon, ⟨100, 40⟩⟩,
    .putItem ⟨"stock", "Stock", .attachment, ⟨-8, 4⟩⟩, .putSlot "rifle" "butt" "Butt" 1,
    .putSlot "ghost" "rail" "Rail" 0, .allow "butt" "stock" 2, .conflict "stock" "grip",
    .conflict "stock" "grip", .putOffers "stock" [⟨.skier, 1, 50⟩],
    .putItem ⟨"stock", "Long stock", .weapon, ⟨-9, 3⟩⟩,
    .putOffers "stock" [⟨.prapor, 2, 900⟩, ⟨.prapor, 2, 800⟩, ⟨.jaeger, 1, 700⟩]]

theorem chronicle_sample :
    Store.fresh.BlankCatalogue ∧ (∀ call ∈ sampleCalls, call.AsksBytes) ∧
    made Store.fresh sampleCalls = sampleCalls.eraseIdx 3 ∧
    (after sampleCalls Store.fresh).allowed = some [⟨"butt", "stock", 2⟩] ∧
    (after sampleCalls Store.fresh).conflicts = some [⟨"stock", "grip"⟩] ∧
    Chronicle (after sampleCalls Store.fresh) (made Store.fresh sampleCalls) := by
  have hstart : Store.fresh.BlankCatalogue := ⟨rfl, rfl, rfl, rfl, rfl⟩
  have hbytes : ∀ call ∈ sampleCalls, call.AsksBytes := by
    simp [sampleCalls, AsksBytes]
  exact ⟨hstart, hbytes, rfl, rfl, rfl, chronicle hstart hbytes⟩

end CatalogueCall

end Gunsmith
