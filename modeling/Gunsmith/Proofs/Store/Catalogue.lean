/-
  The catalogue in the tables.

  No two items have the same id, no item is allowed in a slot twice, and what is allowed
  exists (`Store.CatalogueKeys`).  Every call that writes the catalogue keeps it so, whether
  it succeeds or fails, and all other calls write other tables, so it is so in every store
  that comes about (`Reachable.catalogueKeys`).

  What is read of the catalogue is then what the rows say: an item is found under its id
  (`Store.weapon_ok`, `Store.propertiesOf_ok`), the items that fit a slot are those which the
  rows allow there, each of them once (`Store.mem_allowedIn`,
  `Store.CatalogueKeys.nodup_allowedIn`), and a buyer can purchase what somebody sells at the
  levels (`Store.canPurchase_iff_sells`).
-/
import Gunsmith.Proofs.Store.Calls
import Gunsmith.Proofs.Tree.Expanded

namespace Gunsmith

/-! ### Rows of the catalogue -/

/-- The placement that a row allows. -/
def AllowedRow.placement (row : AllowedRow) : Placement := ⟨row.itemId, row.slotId⟩

namespace Store

/-- The items in the catalogue. -/
def catalogueItems (s : Store) : List Item := s.items.getD []

/-- The placements that the catalogue allows, one for each row. -/
def placements (s : Store) : List Placement := (s.allowed.getD []).map AllowedRow.placement

/-- The item declares a conflict with the other one. -/
def Declares (s : Store) (itemId otherId : String) : Prop :=
  ⟨itemId, otherId⟩ ∈ s.conflicts.getD []

/-- Some offer for the item is one of a trader with whom the buyer has the level it asks for. -/
def Sells (s : Store) (levels : TraderLevels) (itemId : String) : Prop :=
  ∃ row ∈ s.offers.getD [], row.itemId = itemId ∧
    ∃ trader n, Trader.parse row.trader = .ok trader ∧ levels.level trader = some n ∧
      row.minLevel ≤ n

/-- The keys of the catalogue: no id and no placement twice, and only items that there are. -/
structure CatalogueKeys (s : Store) : Prop where
  items : (s.catalogueItems.map Item.id).Nodup
  placements : s.placements.Nodup
  known : ∀ placement ∈ s.placements, placement.itemId ∈ s.catalogueItems.map Item.id

variable {s s' : Store}

theorem catalogueItems_eq {rows : List Item} (h : s.rows? .items = some rows) :
    s.catalogueItems = rows := by
  rw [catalogueItems, show s.items = some rows from h, Option.getD_some]

theorem placements_eq {rows : List AllowedRow} (h : s.rows? .allowed = some rows) :
    s.placements = rows.map AllowedRow.placement := by
  rw [placements, show s.allowed = some rows from h, Option.getD_some]

theorem CatalogueKeys.congr (h : s.CatalogueKeys) (hitems : s'.items = s.items)
    (hallowed : s'.allowed = s.allowed) : s'.CatalogueKeys := by
  obtain ⟨hids, hplacements, hknown⟩ := h
  unfold Store.placements catalogueItems at *
  rw [← hitems] at hids hknown
  rw [← hallowed] at hplacements hknown
  exact ⟨hids, hplacements, hknown⟩

theorem catalogueKeys_fresh : fresh.CatalogueKeys where
  items := List.nodup_nil
  placements := List.nodup_nil
  known _ h := absurd h List.not_mem_nil

end Store

/-! ### Writing -/

namespace Transaction

variable {α : Type} {s s' : Store}

theorem referredRows_ok {t : Table} {rows : List t.Row}
    (h : referredRows t s = .ok (rows, s')) : s.rows? t = some rows ∧ s' = s := by
  obtain ⟨s₁, s₂, hget, hread⟩ := bind_ok h
  obtain ⟨rfl, rfl⟩ := Prod.mk.inj (Except.ok.inj hget)
  cases hrows : s.rows? t with
  | none =>
    rw [hrows] at hread
    exact absurd hread nofun
  | some rows' =>
    rw [hrows] at hread
    obtain ⟨rfl, rfl⟩ := Prod.mk.inj (Except.ok.inj hread)
    exact ⟨rfl, rfl⟩

theorem requireRow_ok {rows : List α} {found : α → Bool} {u : Unit}
    (h : requireRow rows found s = .ok (u, s')) : rows.any found = true ∧ s' = s := by
  unfold requireRow at h
  split at h
  · next hfound => exact ⟨hfound, (Prod.mk.inj (Except.ok.inj h)).2.symm⟩
  · exact absurd h nofun

/-- A call on another table keeps the keys of the catalogue. -/
theorem OnlyWrites.catalogueKeys {t : Table} {action : Transaction α}
    (haction : OnlyWrites t action) (hitems : t ≠ .items) (hallowed : t ≠ .allowed)
    (h : s.CatalogueKeys) : (action.call s).2.CatalogueKeys :=
  h.congr (haction.call s hitems.symm) (haction.call s hallowed.symm)

/-- Writing an item keeps the keys: its id is that of the item in its place, or new. -/
theorem upsertItem_catalogueKeys (h : s.CatalogueKeys) (item : Item) :
    ((upsertItem item).call s).2.CatalogueKeys := by
  refine call_keeps h fun _ s' hcall => ?_
  obtain ⟨rows, s₁, hrows, hwrite⟩ := bind_ok hcall
  obtain ⟨hrows, rfl⟩ := rows_ok hrows
  obtain ⟨-, rfl⟩ := Prod.mk.inj (Except.ok.inj hwrite)
  have hsame : ∀ row : Item, (row.id == item.id) = true → item.id = row.id :=
    fun row hrow => (beq_iff_eq.mp hrow).symm
  obtain ⟨hids, hplacements, hknown⟩ := h
  rw [Store.catalogueItems_eq hrows] at hids hknown
  refine ⟨nodup_map_upsertRow hsame (fun hnone hmem => ?_) hids, hplacements,
    fun placement hplacement => ?_⟩
  · obtain ⟨row, hrow, hid⟩ := List.mem_map.mp hmem
    exact List.find?_eq_none.mp hnone row hrow (beq_iff_eq.mpr hid)
  · show _ ∈ (upsertRow _ _ _ rows).map Item.id
    rw [map_upsertRow hsame]
    split
    · exact hknown placement hplacement
    · exact List.mem_append_left _ (hknown placement hplacement)

/-- An item is allowed in a slot only if there is such an item. -/
theorem allowItem_ok {slotId itemId : String} {position : Int} {u : Unit}
    (h : allowItem slotId itemId position s = .ok (u, s')) :
    ∃ rows : List AllowedRow, s.rows? .allowed = some rows ∧
      itemId ∈ s.catalogueItems.map Item.id ∧
      s' = s.put .allowed (some (upsertRow
        (fun row : AllowedRow => row.slotId == slotId && row.itemId == itemId)
        (fun _ => ⟨slotId, itemId, position⟩) ⟨slotId, itemId, position⟩ rows)) := by
  obtain ⟨rows, s₁, hrows, h₁⟩ := bind_ok h
  obtain ⟨items, s₂, hitems, h₂⟩ := bind_ok h₁
  obtain ⟨slots, s₃, hslots, h₃⟩ := bind_ok h₂
  obtain ⟨_, s₄, hitem, h₄⟩ := bind_ok h₃
  obtain ⟨_, s₅, hslot, hwrite⟩ := bind_ok h₄
  obtain ⟨hrows, rfl⟩ := rows_ok hrows
  obtain ⟨hitems, rfl⟩ := referredRows_ok hitems
  obtain ⟨-, rfl⟩ := referredRows_ok hslots
  obtain ⟨hfound, rfl⟩ := requireRow_ok hitem
  obtain ⟨-, rfl⟩ := requireRow_ok hslot
  obtain ⟨-, rfl⟩ := Prod.mk.inj (Except.ok.inj hwrite)
  obtain ⟨item, hmem, hid⟩ := List.any_eq_true.mp hfound
  rw [Store.catalogueItems_eq hitems]
  exact ⟨rows, hrows, List.mem_map.mpr ⟨item, hmem, beq_iff_eq.mp hid⟩, rfl⟩

/-- Allowing an item in a slot keeps the keys: the placement is that of the row in its place, or
new. -/
theorem allowItem_catalogueKeys (h : s.CatalogueKeys) (slotId itemId : String) (position : Int) :
    ((allowItem slotId itemId position).call s).2.CatalogueKeys := by
  refine call_keeps h fun _ s' hcall => ?_
  obtain ⟨rows, hrows, hitem, rfl⟩ := allowItem_ok hcall
  have hsame : ∀ row : AllowedRow, (row.slotId == slotId && row.itemId == itemId) = true →
      (AllowedRow.mk slotId itemId position).placement = row.placement := by
    intro row hrow
    rw [Bool.and_eq_true, beq_iff_eq, beq_iff_eq] at hrow
    rw [AllowedRow.placement, AllowedRow.placement, hrow.1, hrow.2]
  obtain ⟨hids, hplacements, hknown⟩ := h
  rw [Store.placements_eq hrows] at hplacements hknown
  refine ⟨hids, nodup_map_upsertRow hsame (fun hnone hmem => ?_) hplacements,
    fun placement hplacement => ?_⟩
  · obtain ⟨row, hrow, hplacement⟩ := List.mem_map.mp hmem
    refine List.find?_eq_none.mp hnone row hrow ?_
    obtain ⟨hrowItem, hrowSlot⟩ := Placement.mk.inj hplacement
    rw [hrowItem, hrowSlot, beq_self_eq_true, beq_self_eq_true, Bool.and_self]
  · rw [Store.placements_eq (Store.rows?_put_self s .allowed _), map_upsertRow hsame] at hplacement
    split at hplacement
    · exact hknown placement hplacement
    · rcases List.mem_append.mp hplacement with hold | hnew
      · exact hknown placement hold
      · rw [List.mem_singleton.mp hnew]
        exact hitem

end Transaction

/-! ### Reading -/

namespace Store

variable {α : Type} {s : Store} {id slotId : String}

/-- A question that begins with reading a table. -/
theorem rows_bind_ok {t : Table} {next : List t.Row → Except StoreError α} {a : α}
    (h : (s.rows t >>= next) = .ok a) : ∃ rows, s.rows? t = some rows ∧ next rows = .ok a := by
  cases hrows : s.rows t with
  | error e =>
    rw [hrows] at h
    exact absurd h nofun
  | ok rows =>
    rw [hrows] at h
    exact ⟨rows, rows_ok hrows, h⟩

theorem weapon_ok {w : Weapon} (h : s.weapon id = .ok w) :
    w.id = id ∧ ∃ item ∈ s.catalogueItems, item.id = id ∧ w.name = item.name ∧
      w.modifiers = item.modifiers := by
  obtain ⟨rows, hrows, h⟩ := rows_bind_ok h
  have hitems := catalogueItems_eq hrows
  split at h
  · next item hitem =>
    have hsought := List.find?_some hitem
    have hid : item.id = id := (of_decide_eq_true hsought).1
    rw [← Except.ok.inj h, hitems]
    exact ⟨hid, item, List.mem_of_find?_eq_some hitem, hid, rfl, rfl⟩
  · exact absurd h nofun

theorem propertiesOf_ok {found : Properties} (h : s.propertiesOf id = .ok found) :
    (∃ item ∈ s.catalogueItems, item.id = id ∧ found.modifiers = item.modifiers) ∧
      ∀ other, other ∈ found.conflicts ↔ s.Declares id other := by
  obtain ⟨rows, hrows, h⟩ := rows_bind_ok h
  have hitems := catalogueItems_eq hrows
  split at h
  · exact absurd h nofun
  · next item hitem =>
    have hsought := List.find?_some hitem
    have hid : item.id = id := of_decide_eq_true hsought
    obtain ⟨conflicts, hconflicts, h⟩ := rows_bind_ok h
    rw [← Except.ok.inj h, hitems]
    refine ⟨⟨item, List.mem_of_find?_eq_some hitem, hid, rfl⟩, fun other => ?_⟩
    rw [Declares, show s.conflicts = some conflicts from hconflicts, Option.getD_some]
    rw [List.mem_mergeSort, List.mem_map]
    constructor
    · rintro ⟨row, hrow, rfl⟩
      obtain ⟨hrow, hown⟩ := List.mem_filter.mp hrow
      rw [← beq_iff_eq.mp hown]
      exact hrow
    · intro hrow
      exact ⟨_, List.mem_filter.mpr ⟨hrow, beq_self_eq_true id⟩, rfl⟩

/-- The items that fit a slot, by the rows that allow them. -/
theorem allowedIn_ok {allowed : List AllowedItem} (h : s.allowedIn slotId = .ok allowed) :
    ∃ rows : List AllowedRow,
      rows.Perm ((s.allowed.getD []).filter fun row => row.slotId == slotId) ∧
      allowed = rows.filterMap fun row =>
        (s.catalogueItems.find? fun item => item.id = row.itemId).map fun item =>
          ⟨item.id, item.name⟩ := by
  obtain ⟨rows, hrows, h⟩ := rows_bind_ok h
  obtain ⟨items, hitems, h⟩ := rows_bind_ok h
  rw [catalogueItems_eq hitems, show s.allowed = some rows from hrows, Option.getD_some]
  exact ⟨_, List.mergeSort_perm _ _, (Except.ok.inj h).symm⟩

/-- An item that fits a slot is an item of the catalogue, and allowed there. -/
theorem mem_allowedIn {allowed : List AllowedItem} (h : s.allowedIn slotId = .ok allowed)
    {a : AllowedItem} (ha : a ∈ allowed) :
    ⟨a.id, slotId⟩ ∈ s.placements ∧
      ∃ item ∈ s.catalogueItems, item.id = a.id ∧ item.name = a.name := by
  obtain ⟨rows, hperm, rfl⟩ := allowedIn_ok h
  obtain ⟨row, hrow, hitem⟩ := List.mem_filterMap.mp ha
  obtain ⟨item, hfind, rfl⟩ := Option.map_eq_some_iff.mp hitem
  obtain ⟨hrow, hslot⟩ := List.mem_filter.mp (hperm.mem_iff.mp hrow)
  have hsought := List.find?_some hfind
  have hid : item.id = row.itemId := of_decide_eq_true hsought
  refine ⟨List.mem_map.mpr ⟨row, hrow, ?_⟩, item, List.mem_of_find?_eq_some hfind, rfl, rfl⟩
  rw [AllowedRow.placement, hid, beq_iff_eq.mp hslot]

namespace CatalogueKeys

variable {allowed : List AllowedItem}

/-- **The items that fit a slot** are those which the rows allow there. -/
theorem perm_allowedIn (hkeys : s.CatalogueKeys) (h : s.allowedIn slotId = .ok allowed) :
    (allowed.map fun a => (⟨a.id, slotId⟩ : Placement)).Perm
      (s.placements.filter fun placement => placement.slotId == slotId) := by
  obtain ⟨rows, hperm, rfl⟩ := allowedIn_ok h
  have hrows : (rows.filterMap fun row =>
      (s.catalogueItems.find? fun item => item.id = row.itemId).map fun item =>
        (⟨item.id, item.name⟩ : AllowedItem)).map (fun a => (⟨a.id, slotId⟩ : Placement)) =
      rows.map AllowedRow.placement := by
    rw [List.map_filterMap, ← List.filterMap_eq_map]
    -- What is allowed exists, so no row is left out.
    refine List.filterMap_congr fun row hrow => ?_
    obtain ⟨hrow, hslot⟩ := List.mem_filter.mp (hperm.mem_iff.mp hrow)
    obtain ⟨item, hitem, hid⟩ := List.mem_map.mp (hkeys.known _ (List.mem_map_of_mem hrow))
    cases hfind : s.catalogueItems.find? fun item => item.id = row.itemId with
    | none => exact absurd (decide_eq_true hid) (List.find?_eq_none.mp hfind item hitem)
    | some found =>
      have hsought := List.find?_some hfind
      have hfound : found.id = row.itemId := of_decide_eq_true hsought
      rw [Option.map_some, Option.map_some, hfound, ← beq_iff_eq.mp hslot]
      rfl
  rw [hrows, Store.placements, List.filter_map]
  exact hperm.map _

theorem mem_map_allowedIn (hkeys : s.CatalogueKeys) (h : s.allowedIn slotId = .ok allowed) :
    id ∈ allowed.map AllowedItem.id ↔ ⟨id, slotId⟩ ∈ s.placements := by
  have hmem := (hkeys.perm_allowedIn h).mem_iff (a := ⟨id, slotId⟩)
  rw [List.mem_filter, beq_self_eq_true, and_iff_left rfl] at hmem
  rw [← hmem, List.mem_map, List.mem_map]
  refine exists_congr fun a => and_congr_right fun _ => ?_
  rw [Placement.mk.injEq, and_iff_left rfl]

theorem nodup_allowedIn (hkeys : s.CatalogueKeys) (h : s.allowedIn slotId = .ok allowed) :
    (allowed.map AllowedItem.id).Nodup := by
  have hnodup := (hkeys.perm_allowedIn h).nodup_iff.mpr (hkeys.placements.filter _)
  rw [← Function.comp_def (fun id => (⟨id, slotId⟩ : Placement)) AllowedItem.id,
    ← List.map_map] at hnodup
  exact hnodup.of_map _

end CatalogueKeys

/-! ### Offers -/

/-- Rows that are all read are read one by one. -/
theorem mapM_ok {β : Type} {f : α → Except StoreError β} {xs : List α} : ∀ {ys : List β},
    xs.mapM f = .ok ys → List.Forall₂ (fun x y => f x = .ok y) xs ys := by
  induction xs with
  | nil =>
    intro ys h
    rw [List.mapM_nil] at h
    rw [← Except.ok.inj h]
    exact List.Forall₂.nil
  | cons x xs ih =>
    intro ys h
    rw [List.mapM_cons] at h
    cases hx : f x with
    | error e =>
      rw [hx] at h
      exact absurd h nofun
    | ok y =>
      cases hxs : xs.mapM f with
      | error e =>
        rw [hx, hxs] at h
        exact absurd h nofun
      | ok zs =>
        rw [hx, hxs] at h
        rw [← Except.ok.inj h]
        exact List.Forall₂.cons hx (ih hxs)

theorem offerOf_eq (row : OfferRow) :
    offerOf row =
      match Trader.parse row.trader with
      | .error e => .error (.unreadableColumn 0 e)
      | .ok trader =>
        if row.minLevel < 0 ∨ 255 < row.minLevel then .error (.outOfRange 1 row.minLevel)
        else .ok ⟨trader, row.minLevel.toNat, row.price⟩ := by
  unfold offerOf
  cases Trader.parse row.trader with
  | error e => rfl
  | ok trader =>
    by_cases hlevel : row.minLevel < 0 ∨ 255 < row.minLevel
    · simp only [if_pos hlevel]
      rfl
    · simp only [if_neg hlevel]
      rfl

theorem offerOf_ok {row : OfferRow} {o : Offer} (h : offerOf row = .ok o) :
    Trader.parse row.trader = .ok o.trader ∧ (o.minLevel : Int) = row.minLevel := by
  rw [offerOf_eq] at h
  split at h
  · exact absurd h nofun
  · next trader htrader =>
    split_ifs at h with hlevel
    obtain rfl := Except.ok.inj h
    refine ⟨htrader, ?_⟩
    show (row.minLevel.toNat : Int) = row.minLevel
    omega

/-- The offers for an item are read off its rows, all of them. -/
theorem offersFor_ok {offers : List Offer} (h : s.offersFor id = .ok offers) :
    ∃ rows : List OfferRow,
      rows.Perm ((s.offers.getD []).filter fun row => row.itemId == id) ∧
      List.Forall₂ (fun row o => offerOf row = .ok o) rows offers := by
  obtain ⟨rows, hrows, h⟩ := rows_bind_ok h
  rw [show s.offers = some rows from hrows, Option.getD_some]
  exact ⟨_, List.mergeSort_perm _ _, mapM_ok h⟩

/-- **A buyer can purchase an item** if somebody sells it at the levels. -/
theorem canPurchase_iff_sells {offers : List Offer} (h : s.offersFor id = .ok offers)
    (levels : TraderLevels) : levels.CanPurchase offers ↔ s.Sells levels id := by
  obtain ⟨rows, hperm, hread⟩ := offersFor_ok h
  have hrow : ∀ row, row ∈ rows ↔ row ∈ s.offers.getD [] ∧ row.itemId = id := by
    intro row
    rw [hperm.mem_iff, List.mem_filter, beq_iff_eq]
  constructor
  · rintro ⟨o, ho, n, hlevel, hle⟩
    obtain ⟨row, hmem, hoffer⟩ := exists_of_forall₂ hread ho
    obtain ⟨hstored, hid⟩ := (hrow row).mp hmem
    obtain ⟨htrader, hmin⟩ := offerOf_ok hoffer
    exact ⟨row, hstored, hid, o.trader, n, htrader, hlevel, hmin ▸ Int.ofNat_le.mpr hle⟩
  · rintro ⟨row, hstored, hid, trader, n, htrader, hlevel, hle⟩
    obtain ⟨o, ho, hoffer⟩ := exists_of_forall₂ hread.flip ((hrow row).mpr ⟨hstored, hid⟩)
    obtain ⟨htrader', hmin⟩ := offerOf_ok hoffer
    obtain rfl := Except.ok.inj (htrader.symm.trans htrader')
    exact ⟨o, ho, n, hlevel, Int.ofNat_le.mp (hmin ▸ hle)⟩

end Store

end Gunsmith
