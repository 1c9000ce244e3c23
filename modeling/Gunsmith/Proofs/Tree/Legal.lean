/-
  The tree holds exactly the legal candidates.

  An item is legal for a slot if the catalogue allows it there, the constraints do not
  exclude it, and somebody sells it at the buyer's levels (`Store.Legal`).  In a tree that
  was built, what is listed at a slot as a candidate, as dropped or as kept out by the cycle
  guard is what is legal for the slot, each item once (`Slot.Lists`), and an item above the
  depth limit has the slots of the catalogue that are not ignored (`Part.Matches`).

  The slots of an expansion are taken apart first: every item that fits is mounted or kept
  out by the guard, unless it is unavailable (`SlotExpands.mem_ids_iff`).  Putting the
  candidates into order and dropping some of them only moves ids from one list to the other
  (`Slot.perm_ids_finished`).
-/
import Gunsmith.Proofs.Store.Catalogue
import Gunsmith.Proofs.Tree.Embedding
import Gunsmith.Proofs.Tree.Guard

namespace Gunsmith

/-! ### Verdicts on the items that fit a slot -/

section Verdicts

variable {p : Provider Id} {c : Constraints} {chain : List Placement} {address : List Nat}
  {depth i j : Nat} {row : SlotRecord} {item : AllowedItem} {allowed : List AllowedItem}
  {verdicts : List (String × Verdict Part)} {id : String}

/-- An item is unavailable if it cannot be had. -/
theorem Settled.obtainable_iff {v : Verdict Part}
    (h : Settled p c depth chain address i row item j v) :
    Obtainable p c item.id ↔ v ≠ .unavailable := by
  cases h with
  | unavailable hcons =>
    exact hcons.obtainable_iff.trans ⟨fun h => absurd rfl h, fun h => absurd rfl h⟩
  | cyclic hcons => exact ⟨fun _ => nofun, fun _ => hcons.obtainable_iff.mpr nofun⟩
  | mounted hcons _ => exact ⟨fun _ => nofun, fun _ => hcons.obtainable_iff.mpr nofun⟩

/-- The offers for every item that fits are read, unless it is excluded. -/
theorem Settled.offers {v : Verdict Part} (h : Settled p c depth chain address i row item j v)
    (hex : ¬ c.Excludes item.id) : ∃ offers, p.offers item.id = .ok offers := by
  have hcons : ∃ v, Considered p c chain row.id item v := by
    cases h with
    | unavailable hcons => exact ⟨_, hcons⟩
    | cyclic hcons => exact ⟨_, hcons⟩
    | mounted hcons _ => exact ⟨_, hcons⟩
  obtain ⟨v, hcons⟩ := hcons
  cases hcons with
  | excluded hex' => exact absurd hex' hex
  | unsold _ hoffers _ => exact ⟨_, hoffers⟩
  | cyclic _ hoffers _ _ => exact ⟨_, hoffers⟩
  | mounted _ hoffers _ _ _ => exact ⟨_, hoffers⟩

/-- The names of the items that were mounted. -/
def mountedIds (verdicts : List (String × Verdict Part)) : List String :=
  (verdicts.filter fun v => v.2.part?.isSome).map Prod.fst

/-- The items are settled under their own names. -/
theorem AllSettled.map_fst (h : AllSettled p c depth chain address i row allowed verdicts) :
    verdicts.map Prod.fst = allowed.map AllowedItem.id := by
  have hnames : List.Forall₂ (fun a v => a.id = v.1) allowed verdicts :=
    (forall₂_of_zipIdx h).imp fun _ _ ⟨_, hname, _⟩ => hname.symm
  rw [← List.forall₂_eq_eq_eq, List.forall₂_map_left_iff, List.forall₂_map_right_iff]
  exact hnames.flip.imp fun _ _ hname => hname.symm

/-- What was mounted or kept out is what fits and can be had. -/
theorem AllSettled.mem_ids_iff (h : AllSettled p c depth chain address i row allowed verdicts) :
    id ∈ mountedIds verdicts ++ cyclicIds verdicts ↔
      id ∈ allowed.map AllowedItem.id ∧ Obtainable p c id := by
  have hlisted : id ∈ mountedIds verdicts ++ cyclicIds verdicts ↔
      ∃ v ∈ verdicts, v.2 ≠ .unavailable ∧ v.1 = id := by
    unfold mountedIds cyclicIds
    rw [List.mem_append, List.mem_map, List.mem_map]
    constructor
    · rintro (⟨⟨name, v⟩, hv, rfl⟩ | ⟨⟨name, v⟩, hv, rfl⟩)
      all_goals
        obtain ⟨hv, hkind⟩ := List.mem_filter.mp hv
        refine ⟨_, hv, ?_, rfl⟩
        rintro rfl
        exact absurd hkind Bool.false_ne_true
    · rintro ⟨⟨name, v⟩, hv, hhad, rfl⟩
      cases v with
      | unavailable => exact absurd rfl hhad
      | cyclic => exact Or.inr ⟨_, List.mem_filter.mpr ⟨hv, rfl⟩, rfl⟩
      | mounted part => exact Or.inl ⟨_, List.mem_filter.mpr ⟨hv, rfl⟩, rfl⟩
  rw [hlisted, List.mem_map]
  constructor
  · rintro ⟨v, hv, hhad, rfl⟩
    obtain ⟨item, hitem, j, hname, hsettled⟩ := exists_of_forall₂ (forall₂_of_zipIdx h) hv
    rw [hname]
    exact ⟨⟨item, hitem, rfl⟩, hsettled.obtainable_iff.mpr hhad⟩
  · rintro ⟨⟨item, hitem, rfl⟩, hhad⟩
    obtain ⟨v, hv, j, hname, hsettled⟩ := exists_of_forall₂ (forall₂_of_zipIdx h).flip hitem
    exact ⟨v, hv, hsettled.obtainable_iff.mp hhad, hname⟩

/-- What was kept out is what fits, can be had and has its placement on the chain. -/
theorem AllSettled.mem_cyclicIds_iff
    (h : AllSettled p c depth chain address i row allowed verdicts) :
    id ∈ cyclicIds verdicts ↔
      (id ∈ allowed.map AllowedItem.id ∧ Obtainable p c id) ∧ ⟨id, row.id⟩ ∈ chain := by
  constructor
  · intro hid
    exact ⟨h.mem_ids_iff.mp (List.mem_append_right _ hid), h.mem_chain hid⟩
  · rintro ⟨⟨hfits, hhad⟩, hchain⟩
    obtain ⟨item, hitem, rfl⟩ := List.mem_map.mp hfits
    obtain ⟨v, hv, j, hname, hsettled⟩ := exists_of_forall₂ (forall₂_of_zipIdx h).flip hitem
    exact AllSettled.mem_cyclicIds hv hname hsettled hhad hchain

/-- If no item fits twice, then none is listed twice. -/
theorem AllSettled.nodup_ids (h : AllSettled p c depth chain address i row allowed verdicts)
    (hallowed : (allowed.map AllowedItem.id).Nodup) :
    (mountedIds verdicts ++ cyclicIds verdicts).Nodup := by
  rw [← h.map_fst] at hallowed
  have hpart : ∀ kind : String × Verdict Part → Bool,
      ((verdicts.filter kind).map Prod.fst).Nodup :=
    fun kind => hallowed.sublist (List.filter_sublist.map Prod.fst)
  refine List.nodup_append.mpr ⟨hpart _, hpart _, ?_⟩
  rintro _ hmounted _ hcyclic rfl
  -- One name belongs to one verdict, which is of one kind.
  obtain ⟨v, hv, hname⟩ := List.mem_map.mp hmounted
  obtain ⟨u, hu, rfl⟩ := List.mem_map.mp hcyclic
  obtain ⟨hv, hvkind⟩ := List.mem_filter.mp hv
  obtain ⟨hu, hukind⟩ := List.mem_filter.mp hu
  obtain rfl := List.inj_on_of_nodup_map hallowed hv hu hname
  obtain ⟨name, verdict⟩ := v
  cases verdict with
  | unavailable => exact absurd hvkind Bool.false_ne_true
  | cyclic => exact absurd hvkind Bool.false_ne_true
  | mounted part => exact absurd hukind Bool.false_ne_true

/-- The candidates for a slot are the items that were mounted. -/
theorem SlotExpands.map_id_candidates {ownerId : String} {t : Slot}
    (h : SlotExpands p c depth chain address ownerId row i t allowed verdicts) :
    t.candidates.map Part.id = mountedIds verdicts := by
  have hnames : ∀ v ∈ verdicts, ∀ d, v.2.part? = some d → d.id = v.1 := by
    intro v hv d hd
    obtain ⟨item, -, j, hname, hsettled⟩ := exists_of_forall₂ (forall₂_of_zipIdx h.settled) hv
    rw [hname]
    obtain ⟨name, verdict⟩ := v
    cases hsettled with
    | unavailable _ => exact absurd hd nofun
    | cyclic _ => exact absurd hd nofun
    | mounted hcons hx =>
      obtain rfl := Option.some.inj hd
      cases hcons with
      | mounted _ _ _ _ _ =>
        obtain ⟨cut, hlabel⟩ := expand_label hx
        rw [Part.id, hlabel]
        rfl
  -- Both lists leave out the same verdicts.
  rw [h.candidates, mountedIds, List.map_filterMap, ← List.filterMap_eq_map, List.filterMap_filter]
  refine List.filterMap_congr fun v hv => ?_
  cases hd : v.2.part? with
  | none => rfl
  | some d => exact congrArg some (hnames v hv d hd)

end Verdicts

/-! ### Moving candidates about -/

section Marked

variable {α : Type}

/-- Every member is marked in one way or the other. -/
theorem perm_selectMarked {xs : List α} {marks : List Bool} (h : xs.length = marks.length) :
    (selectMarked false xs marks ++ selectMarked true xs marks).Perm xs := by
  have hnot : (fun v : α × Bool => v.2 == true) = fun v => !(v.2 == false) := by
    funext v
    cases v.2 <;> rfl
  have hperm := (List.filter_append_perm (fun v : α × Bool => v.2 == false) (xs.zip marks)).map
    Prod.fst
  rw [List.map_append, List.map_fst_zip h.le, ← hnot] at hperm
  exact hperm

end Marked

namespace Slot

variable (m : ConflictMap) (stat : Stat)

/-- What is listed at a slot, as a candidate or as dropped. -/
def keptIds (s : Slot) : List String := s.candidates.map Part.id ++ s.site.pruned

theorem perm_ids_ordered (s : Slot) : (s.ordered stat).keptIds.Perm s.keptIds := by
  have hperm := (s.perm_candidates_ordered stat).map Part.id
  have hids : (s.candidates.map (Part.ordered stat)).map Part.id = s.candidates.map Part.id := by
    rw [List.map_map]
    exact List.map_congr_left fun d _ => (trimming_ordered stat).id d
  have hsite : (s.ordered stat).site = s.site := by
    rw [Slot.ordered_eq]
    rfl
  rw [keptIds, keptIds, hsite]
  exact (hids ▸ hperm).append_right _

theorem perm_ids_prune (s : Slot) : (s.prune m stat).keptIds.Perm s.keptIds := by
  have hlength : s.candidates.length = (s.removedMarks m stat).length := by
    unfold removedMarks Rating.removed
    rw [List.length_map, List.length_zipIdx, List.length_map]
  have hids : (s.prune m stat).candidates.map Part.id =
      (selectMarked false s.candidates (s.removedMarks m stat)).map Part.id := by
    rw [candidates_prune, selectMarked_map, List.map_map]
    exact List.map_congr_left fun d _ => (trimming_prune m stat).id d
  have hperm := (perm_selectMarked hlength).map Part.id
  rw [List.map_append] at hperm
  rw [keptIds, keptIds, hids, site_prune]
  refine ((List.perm_append_comm).append_left _).trans ?_
  rw [← List.append_assoc]
  exact hperm.append_right _

/-- **Finishing a tree** only moves ids from the candidates to the dropped ones. -/
theorem perm_ids_finished (s : Slot) : (s.finished m stat).keptIds.Perm s.keptIds :=
  ((s.ordered stat).perm_ids_prune m stat).trans (s.perm_ids_ordered stat)

end Slot

/-! ### Legal items -/

/-- The item may stand in the slot, as far as the catalogue and the constraints go. -/
structure Store.Legal (s : Store) (c : Constraints) (slotId itemId : String) : Prop where
  allowed : ⟨itemId, slotId⟩ ∈ s.placements
  included : ¬ c.Excludes itemId
  sold : s.Sells c.levels itemId

/-- The slot, at the end of a chain, lists the items that are legal for it. -/
structure Slot.Lists (s : Store) (c : Constraints) (chain : List Placement) (t : Slot) : Prop where
  /-- No item is listed twice, neither at one place nor at two. -/
  nodup : (t.candidates.map Part.id ++ t.site.pruned ++ t.site.cyclic).Nodup
  mem_iff : ∀ id, id ∈ t.candidates.map Part.id ++ t.site.pruned ++ t.site.cyclic ↔
    s.Legal c t.site.id id
  /-- Kept out are those whose placement is on the chain. -/
  cyclic_iff : ∀ id, id ∈ t.site.cyclic ↔ s.Legal c t.site.id id ∧ ⟨id, t.site.id⟩ ∈ chain

/-- What the catalogue is asked about the slot. -/
def Slot.record (t : Slot) : SlotRecord := ⟨t.site.id, t.site.name⟩

/-- The item carries the name and the modifiers that the catalogue has for its id. -/
def Part.Carries (s : Store) (part : Part) : Prop :=
  ∃ item ∈ s.catalogueItems, item.id = part.id ∧ item.name = part.label.name ∧
    item.modifiers = part.label.modifiers

/-- The item, at the end of a chain, matches the catalogue. -/
structure Part.Matches (s : Store) (c : Constraints) (maxDepth : Nat) (chain : List Placement)
    (part : Part) : Prop where
  depth : chain.length ≤ maxDepth
  /-- Above the depth limit, an item has the slots that are not ignored, in order. -/
  opened : chain.length < maxDepth → ∃ rows, s.slotsOf part.id = .ok rows ∧
    part.slots.map Slot.record = rows.filter fun row => ¬ c.Ignores row.name
  closed : chain.length = maxDepth → part.slots = []
  listed : ∀ t ∈ part.slots, t.Lists s c chain
  carries : part.Carries s
  /-- Below the weapon, an item carries the conflicts that it declares. -/
  declared : chain ≠ [] → ∀ other, other ∈ part.label.declared ↔ s.Declares part.id other

section Expansions

variable {s : Store} {c : Constraints} {maxDepth depth : Nat} {chain : List Placement}
  {part : Part}

/-- Items are settled as the catalogue says. -/
theorem SlotExpands.legal_iff {address : List Nat} {ownerId : String} {row : SlotRecord} {i : Nat}
    {t : Slot} {allowed : List AllowedItem} {verdicts : List (String × Verdict Part)}
    (h : SlotExpands s.provider c depth chain address ownerId row i t allowed verdicts)
    (hkeys : s.CatalogueKeys) (id : String) :
    id ∈ allowed.map AllowedItem.id ∧ Obtainable s.provider c id ↔ s.Legal c row.id id := by
  constructor
  · rintro ⟨hfits, hex, offers, hoffers, hbuy⟩
    exact ⟨(hkeys.mem_map_allowedIn h.read).mp hfits, hex,
      (Store.canPurchase_iff_sells hoffers c.levels).mp hbuy⟩
  · rintro ⟨hallowed, hex, hsold⟩
    have hfits := (hkeys.mem_map_allowedIn h.read).mpr hallowed
    obtain ⟨item, hitem, rfl⟩ := List.mem_map.mp hfits
    -- The slot was expanded, so the offers for the item were read.
    obtain ⟨v, -, j, -, hsettled⟩ := exists_of_forall₂ (forall₂_of_zipIdx h.settled).flip hitem
    obtain ⟨offers, hoffers⟩ := hsettled.offers hex
    exact ⟨hfits, hex, offers, hoffers, (Store.canPurchase_iff_sells hoffers c.levels).mpr hsold⟩

/-- A slot of an expansion, once finished, lists what is legal. -/
theorem SlotExpands.lists {address : List Nat} {ownerId : String} {row : SlotRecord} {i : Nat}
    {t : Slot} {allowed : List AllowedItem} {verdicts : List (String × Verdict Part)}
    (h : SlotExpands s.provider c depth chain address ownerId row i t allowed verdicts)
    (hkeys : s.CatalogueKeys) (m : ConflictMap) (stat : Stat) :
    (t.finished m stat).Lists s c chain := by
  obtain ⟨pruned, hsite⟩ := t.site_finished m stat
  have hkept : (t.finished m stat).keptIds.Perm (mountedIds verdicts) := by
    have hbefore : t.keptIds = mountedIds verdicts := by
      rw [Slot.keptIds, h.map_id_candidates, h.site, List.append_nil]
    exact hbefore ▸ t.perm_ids_finished m stat
  have hcyclic : (t.finished m stat).site.cyclic = cyclicIds verdicts := by
    rw [hsite, h.site]
    rfl
  have hid : (t.finished m stat).site.id = row.id := by
    rw [hsite, h.site]
  have hperm : ((t.finished m stat).candidates.map Part.id ++ (t.finished m stat).site.pruned ++
      (t.finished m stat).site.cyclic).Perm (mountedIds verdicts ++ cyclicIds verdicts) := by
    rw [hcyclic]
    exact hkept.append_right _
  refine ⟨?_, fun id => ?_, fun id => ?_⟩
  · exact hperm.nodup_iff.mpr (AllSettled.nodup_ids h.settled (hkeys.nodup_allowedIn h.read))
  · rw [hperm.mem_iff, hid]
    exact (AllSettled.mem_ids_iff h.settled).trans (h.legal_iff hkeys id)
  · rw [hcyclic, hid, ← h.legal_iff hkeys id]
    exact AllSettled.mem_cyclicIds_iff h.settled

namespace ExpandedAt

variable {p : Provider Id}

/-- At the depth limit, an item has no slots. -/
theorem slots_eq_nil (h : ExpandedAt p c 0 chain part) : part.slots = [] := by
  obtain ⟨address, label, -, h⟩ := h
  obtain ⟨rows, -, rfl⟩ := expand_zero_ok h
  rfl

/-- Above the depth limit, an item has a slot for each row that is not ignored. -/
theorem slots (h : ExpandedAt p c (depth + 1) chain part) :
    ∃ rows, p.slots part.id = .ok rows ∧
      List.Forall₂ (fun row t => ∃ address i allowed verdicts,
        SlotExpands p c depth chain address part.id row i t allowed verdicts)
      (rows.filter fun row => ¬ c.Ignores row.name) part.slots := by
  obtain ⟨address, label, -, h⟩ := h
  obtain ⟨rows, slots, hrows, rfl, hslots⟩ := expand_succ_ok h
  refine ⟨rows, hrows, (forall₂_of_zipIdx hslots).imp ?_⟩
  rintro row t ⟨i, allowed, verdicts, hslot⟩
  exact ⟨address, i, allowed, verdicts, hslot⟩

/-- The slots are those of the rows. -/
theorem map_record (h : ExpandedAt p c (depth + 1) chain part) :
    ∃ rows, p.slots part.id = .ok rows ∧
      part.slots.map Slot.record = rows.filter fun row => ¬ c.Ignores row.name := by
  obtain ⟨rows, hrows, hslots⟩ := h.slots
  refine ⟨rows, hrows, ?_⟩
  rw [← List.forall₂_eq_eq_eq, List.forall₂_map_left_iff]
  refine hslots.flip.imp fun t row hslot => ?_
  obtain ⟨address, i, allowed, verdicts, hslot⟩ := hslot
  rw [Slot.record, hslot.site]

/-- The slots, once finished, list what is legal for them. -/
theorem lists (h : ExpandedAt s.provider c depth chain part) (hkeys : s.CatalogueKeys)
    (m : ConflictMap) (stat : Stat) {t : Slot} (ht : t ∈ part.slots) :
    (t.finished m stat).Lists s c chain := by
  obtain ⟨address, label, -, h⟩ := h
  obtain ⟨_, row, i, allowed, verdicts, -, hslot⟩ := expand_slot h ht
  exact hslot.lists hkeys m stat

/-- **An expanded item, once finished**, matches the catalogue if its label does. -/
theorem finished_matches (h : ExpandedAt s.provider c depth chain part) (hkeys : s.CatalogueKeys)
    (hlength : depth + chain.length = maxDepth) (m : ConflictMap) (stat : Stat)
    (hcarries : part.Carries s)
    (hdeclared : chain ≠ [] → ∀ other, other ∈ part.label.declared ↔ s.Declares part.id other) :
    (part.finished m stat).Matches s c maxDepth chain := by
  have hid := (trimming_finished m stat).id part
  have hlabel := (trimming_finished m stat).label part
  have hslots := (trimming_finished m stat).slots part
  refine ⟨by omega, fun hlt => ?_, fun heq => ?_, fun t ht => ?_, ?_, ?_⟩
  · obtain ⟨depth', rfl⟩ : ∃ depth', depth = depth' + 1 := ⟨depth - 1, by omega⟩
    obtain ⟨rows, hrows, hrecords⟩ := h.map_record
    refine ⟨rows, hid.symm ▸ hrows, ?_⟩
    rw [hslots, List.map_map, ← hrecords]
    refine List.map_congr_left fun t _ => ?_
    obtain ⟨pruned, hsite⟩ := t.site_finished m stat
    show Slot.record (t.finished m stat) = t.record
    rw [Slot.record, Slot.record, hsite]
  · obtain rfl : depth = 0 := by omega
    rw [hslots, h.slots_eq_nil, List.map_nil]
  · rw [hslots] at ht
    obtain ⟨u, hu, rfl⟩ := List.mem_map.mp ht
    exact h.lists hkeys m stat hu
  · rw [Part.Carries, hid, hlabel]
    exact hcarries
  · rw [hid, hlabel]
    exact hdeclared

end ExpandedAt

end Expansions

/-! ### Labels -/

section Labels

variable {s : Store} {c : Constraints} {depth : Nat} {chain : List Placement} {slotId : String}
  {top part : Part}

namespace Part

/-- A mounted item carries the name with which it was allowed and the modifiers of its id. -/
theorem MountedIn.carries (h : part.MountedIn s.provider chain slotId)
    (hkeys : s.CatalogueKeys) : part.Carries s := by
  obtain ⟨allowed, hallowed, hmem⟩ := h.fits
  obtain ⟨found, hfaithful⟩ := h.faithful
  obtain ⟨-, item, hitem, hid, hname⟩ := Store.mem_allowedIn hallowed hmem
  obtain ⟨⟨item', hitem', hid', hmodifiers⟩, -⟩ := Store.propertiesOf_ok hfaithful.properties
  obtain rfl := List.inj_on_of_nodup_map hkeys.items hitem hitem' (hid.trans hid'.symm)
  exact ⟨item, hitem, hid, hname, hmodifiers.symm.trans hfaithful.modifiers.symm⟩

theorem MountedIn.mem_declared (h : part.MountedIn s.provider chain slotId) (other : String) :
    other ∈ part.label.declared ↔ s.Declares part.id other := by
  obtain ⟨found, hfaithful⟩ := h.faithful
  rw [hfaithful.declared, NameSet.mem_ofList]
  exact (Store.propertiesOf_ok hfaithful.properties).2 other

/-- What stands below the top of an expansion was mounted. -/
theorem Stands.mountedIn {p : Provider Id} (h : ExpandedAt p c depth [] top)
    (hpart : top.Stands chain part) (hne : chain ≠ []) :
    ∃ chain' slotId, part.MountedIn p chain' slotId := by
  cases hpart with
  | top => exact absurd rfl hne
  | mount howner hs hd =>
    obtain ⟨rest, -, howner⟩ := h.of_stands howner
    obtain ⟨_, -, -, hmounted⟩ := howner.candidate hs hd
    exact ⟨_, _, hmounted⟩

end Part

end Labels

/-! ### Built trees -/

namespace CandidateTree

variable {s : Store} {c : Constraints} {maxDepth depth : Nat} {weaponId : String} {stat : Stat}
  {tree : CandidateTree} {chain : List Placement} {part : Part}

/-- The weapon carries the name and the modifiers of its id. -/
theorem carries_of_expansion
    (h : (expansion s.provider maxDepth weaponId c).run = Except.ok part) :
    part.id = weaponId ∧ part.Carries s := by
  obtain ⟨w, -, hw, hexpand⟩ := expansion_ok h
  obtain ⟨hid, item, hitem, hitemId, hname, hmodifiers⟩ := Store.weapon_ok hw
  obtain ⟨cut, hlabel⟩ := expand_label hexpand
  have hpart : part.id = weaponId := by
    rw [Part.id, hlabel]
    exact hid
  refine ⟨hpart, item, hitem, hitemId.trans hpart.symm, ?_, ?_⟩
  · rw [hlabel]
    exact hname.symm
  · rw [hlabel]
    exact hmodifiers.symm

/-- What stands in the expansion carries what the catalogue says of it. -/
theorem carries_of_stands (hkeys : s.CatalogueKeys)
    (h : (expansion s.provider maxDepth weaponId c).run = Except.ok part)
    {x : Part} (hx : part.Stands chain x) : x.Carries s := by
  cases hx with
  | top => exact (carries_of_expansion h).2
  | mount howner hs hd =>
    obtain ⟨_, _, hmounted⟩ := (howner.mount hs hd).mountedIn (expandedAt_of_expansion h)
      (List.cons_ne_nil _ _)
    exact hmounted.carries hkeys

/-- **A tree that is built holds exactly the legal candidates**, at every item in it. -/
theorem matchesCatalogue (hkeys : s.CatalogueKeys)
    (hbuild : (build s.provider maxDepth weaponId stat c).run = Except.ok tree) :
    tree.root.id = weaponId ∧
      ∀ chain part, tree.root.Stands chain part → part.Matches s c maxDepth chain := by
  obtain ⟨top, hexp, -, rfl⟩ := build_ok hbuild
  have hid := (trimming_finished top.declarations.symmetric stat).id top
  refine ⟨hid.trans (carries_of_expansion hexp).1, fun chain y hy => ?_⟩
  obtain ⟨x, hx, rfl⟩ := stands_ofExpansion hy
  obtain ⟨rest, hlength, hxat, -⟩ := expandedAt_of_stands hexp hx
  refine hxat.finished_matches hkeys hlength _ stat (carries_of_stands hkeys hexp hx) ?_
  intro hne other
  obtain ⟨_, _, hmounted⟩ := hx.mountedIn (expandedAt_of_expansion hexp) hne
  exact hmounted.mem_declared other

theorem matchesCatalogue_sample : loopStore.CatalogueKeys ∧ ∃ tree,
    (build loopStore.provider 6 "w" .recoil loopConstraints).run = Except.ok tree ∧
      (tree.root.allSlots.map fun t => (t.site.pruned, t.site.cyclic)) =
        [(["d"], []), ([], []), ([], []), ([], ["b"])] ∧
      tree.root.id = "w" ∧
      ∀ chain part, tree.root.Stands chain part →
        part.Matches loopStore loopConstraints 6 chain := by
  have hkeys : loopStore.CatalogueKeys := ⟨by decide, by decide, by decide⟩
  have hlists : ((build loopStore.provider 6 "w" .recoil loopConstraints).run.toOption.map
      fun tree => tree.root.allSlots.map fun t => (t.site.pruned, t.site.cyclic)) =
      some [(["d"], []), ([], []), ([], []), ([], ["b"])] := by cbv
  rcases hbuild : (build loopStore.provider 6 "w" .recoil loopConstraints).run with e | tree
  · rw [hbuild] at hlists
    cases hlists
  · rw [hbuild] at hlists
    exact ⟨hkeys, tree, rfl, Option.some.inj hlists, matchesCatalogue hkeys hbuild⟩

end CandidateTree

end Gunsmith
