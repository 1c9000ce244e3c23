/-
  What an expansion has read.

  An expansion that succeeds has asked the catalogue about every item and every slot in the
  tree.  `expand_zero_ok` and `expand_succ_ok` take one level of it apart: an item has a slot for
  each row of the catalogue that is not ignored (`SlotExpands`), and for each item that fits
  a slot it was settled (`Settled`) whether it is unavailable, kept out by the cycle guard,
  or mounted and expanded in turn.  `expand_succ_of_slots` puts a level together again.

  From this it follows by induction over the tree that an item knows its slots
  (`Expanded.ownerId`), that attached items carry what the catalogue says of them
  (`Expanded.attached`), and that no two slots have the same address
  (`Expanded.distinctAddresses`).
-/
import Gunsmith.Tree.Candidates
import Gunsmith.Proofs.Tree.Listing
import Mathlib.Data.List.Forall2

namespace Gunsmith

/-! ### Lists side by side -/

section Forall₂

variable {α β : Type} {R : α → β → Prop} {xs : List α} {ys : List β}

theorem exists_of_forall₂ (h : List.Forall₂ R xs ys) {y : β} (hy : y ∈ ys) : ∃ x ∈ xs, R x y := by
  induction h with
  | nil => exact absurd hy List.not_mem_nil
  | cons hxy _ ih =>
    rcases List.mem_cons.mp hy with rfl | hy'
    · exact ⟨_, List.mem_cons_self, hxy⟩
    · obtain ⟨x, hx, h⟩ := ih hy'
      exact ⟨x, List.mem_cons_of_mem _ hx, h⟩

/-- What stands beside the numbered members of a list stands at the positions they have. -/
theorem exists_of_forall₂_zipIdx {R : α × Nat → β → Prop} (h : List.Forall₂ R xs.zipIdx ys) (i : Nat)
    (hi : i < ys.length) : ∃ x, R (x, i) ys[i] := by
  obtain ⟨hlen, hget⟩ := List.forall₂_iff_get.mp h
  have hi' : i < xs.zipIdx.length := hlen ▸ hi
  have hR := hget i hi' hi
  rw [List.get_eq_getElem, List.get_eq_getElem, List.getElem_zipIdx, Nat.zero_add] at hR
  exact ⟨_, hR⟩

end Forall₂

/-! ### Readings that succeed -/

/-- Of steps that carry a state along, those after a failure are not taken. -/
theorem run_bind_state {ε σ α β : Type} (x : ExceptT ε (StateM σ) α)
    (f : α → ExceptT ε (StateM σ) β) (s : σ) :
    (x >>= f).run s = match x.run s with
      | (.ok a, s') => (f a).run s'
      | (.error e, s') => (.error e, s') := by
  unfold ExceptT.run
  show ExceptT.bind x f s = _
  simp only [ExceptT.bind, ExceptT.mk, bind, StateT.bind]
  rcases x s with ⟨_ | _, _⟩ <;> rfl

namespace Reading

variable {α β : Type} {a : α} {b : β}

theorem pure_ok {a a' : α} (h : (pure a : Reading Id α).run = Except.ok a') : a = a' :=
  Except.ok.inj h

theorem bind_ok {x : Reading Id α} {f : α → Reading Id β} (h : (x >>= f).run = Except.ok b) :
    ∃ a, x.run = Except.ok a ∧ (f a).run = Except.ok b := by
  rw [ExceptT.run_bind] at h
  rcases hx : x.run with e | a
  · rw [hx] at h
    exact absurd h nofun
  · rw [hx] at h
    exact ⟨a, rfl, h⟩

theorem ask_ok {id : String} {question : Except StoreError α}
    (h : (Reading.ask (m := Id) id question).run = Except.ok a) : question = .ok a := by
  rcases question with e | a'
  · exact absurd h nofun
  · exact congrArg _ (Except.ok.inj h)

theorem mapM_ok {f : α → Reading Id β} {xs : List α} : ∀ {ys : List β},
    (xs.mapM f).run = Except.ok ys → List.Forall₂ (fun x y => (f x).run = Except.ok y) xs ys := by
  induction xs with
  | nil =>
    intro ys h
    rw [List.mapM_nil] at h
    rw [← pure_ok h]
    exact List.Forall₂.nil
  | cons x xs ih =>
    intro ys h
    rw [List.mapM_cons] at h
    obtain ⟨y, hy, h⟩ := bind_ok h
    obtain ⟨zs, hzs, h⟩ := bind_ok h
    rw [← pure_ok h]
    exact List.Forall₂.cons hy (ih hzs)

theorem ask_of_ok {id : String} {question : Except StoreError α} (h : question = .ok a) :
    (Reading.ask (m := Id) id question).run = Except.ok a := by
  subst h
  rfl

theorem run_bind_of_ok {x : Reading Id α} {f : α → Reading Id β} (h : x.run = Except.ok a) :
    (x >>= f).run = (f a).run := by
  rw [ExceptT.run_bind, h]
  rfl

theorem mapM_of_ok {f : α → Reading Id β} {xs : List α} {ys : List β}
    (h : List.Forall₂ (fun x y => (f x).run = Except.ok y) xs ys) :
    (xs.mapM f).run = Except.ok ys := by
  induction h with
  | nil => rfl
  | cons hxy _ ih =>
    rw [List.mapM_cons, run_bind_of_ok hxy, run_bind_of_ok ih]
    rfl

end Reading

/-! ### One level of an expansion -/

/-- The label of an attachment that fits a slot, with what was found about it. -/
def AllowedItem.label (item : AllowedItem) (found : Properties) : Label :=
  ⟨item.id, item.name, .attachment, found.modifiers, NameSet.ofList found.conflicts, false⟩

variable {p : Provider Id} {c : Constraints}

/-- What the catalogue says about an item that fits a slot, and the verdict that follows. -/
inductive Considered (p : Provider Id) (c : Constraints) (chain : List Placement) (slotId : String)
    (item : AllowedItem) : Verdict Label → Prop
  | excluded (hex : c.Excludes item.id) : Considered p c chain slotId item .unavailable
  | unsold {offers : List Offer} (hex : ¬ c.Excludes item.id)
    (hoffers : p.offers item.id = .ok offers) (hbuy : ¬ c.levels.CanPurchase offers) :
    Considered p c chain slotId item .unavailable
  | cyclic {offers : List Offer} (hex : ¬ c.Excludes item.id)
    (hoffers : p.offers item.id = .ok offers) (hbuy : c.levels.CanPurchase offers)
    (hchain : ⟨item.id, slotId⟩ ∈ chain) : Considered p c chain slotId item .cyclic
  | mounted {offers : List Offer} {found : Properties} (hex : ¬ c.Excludes item.id)
    (hoffers : p.offers item.id = .ok offers) (hbuy : c.levels.CanPurchase offers)
    (hchain : ⟨item.id, slotId⟩ ∉ chain) (hfound : p.properties item.id = .ok found) :
    Considered p c chain slotId item (.mounted (item.label found))

/-- The item is not excluded, and somebody sells it at the buyer's levels. -/
def Obtainable (p : Provider Id) (c : Constraints) (id : String) : Prop :=
  ¬ c.Excludes id ∧ ∃ offers, p.offers id = .ok offers ∧ c.levels.CanPurchase offers

/-- An item becomes a candidate or is kept out by the guard if it can be had at all. -/
theorem Considered.obtainable_iff {chain : List Placement} {slotId : String} {item : AllowedItem}
    {v : Verdict Label} (h : Considered p c chain slotId item v) :
    Obtainable p c item.id ↔ v ≠ .unavailable := by
  cases h with
  | excluded hex => exact ⟨fun h => absurd hex h.1, fun h => absurd rfl h⟩
  | unsold _ hoffers hbuy =>
    refine ⟨fun ⟨_, offers, hoffers', hbuy'⟩ => ?_, fun h => absurd rfl h⟩
    rw [hoffers, Except.ok.injEq] at hoffers'
    exact absurd (hoffers' ▸ hbuy') hbuy
  | cyclic hex hoffers hbuy _ => exact ⟨fun _ => nofun, fun _ => ⟨hex, _, hoffers, hbuy⟩⟩
  | mounted hex hoffers hbuy _ _ => exact ⟨fun _ => nofun, fun _ => ⟨hex, _, hoffers, hbuy⟩⟩

theorem consider_ok {chain : List Placement} {slotId : String} {item : AllowedItem}
    {v : Verdict Label} (h : (consider p c chain slotId item).run = Except.ok v) :
    Considered p c chain slotId item v := by
  unfold consider at h
  by_cases hex : c.Excludes item.id
  · rw [if_pos hex] at h
    rw [← Reading.pure_ok h]
    exact Considered.excluded hex
  rw [if_neg hex] at h
  obtain ⟨offers, hoffers, h⟩ := Reading.bind_ok h
  have hoffers := Reading.ask_ok hoffers
  by_cases hbuy : c.levels.CanPurchase offers
  · rw [if_neg (not_not.mpr hbuy)] at h
    by_cases hchain : ⟨item.id, slotId⟩ ∈ chain
    · rw [if_pos hchain] at h
      rw [← Reading.pure_ok h]
      exact Considered.cyclic hex hoffers hbuy hchain
    · rw [if_neg hchain] at h
      obtain ⟨found, hfound, h⟩ := Reading.bind_ok h
      rw [← Reading.pure_ok h]
      exact Considered.mounted hex hoffers hbuy hchain (Reading.ask_ok hfound)
  · rw [if_pos hbuy] at h
    rw [← Reading.pure_ok h]
    exact Considered.unsold hex hoffers hbuy

/-- What is found about an item decides what becomes of it. -/
theorem Considered.run_consider {chain : List Placement} {slotId : String} {item : AllowedItem}
    {v : Verdict Label} (h : Considered p c chain slotId item v) :
    (consider p c chain slotId item).run = Except.ok v := by
  unfold consider
  cases h with
  | excluded hex =>
    rw [if_pos hex]
    rfl
  | unsold hex hoffers hbuy =>
    rw [if_neg hex, Reading.run_bind_of_ok (Reading.ask_of_ok hoffers), if_pos hbuy]
    rfl
  | cyclic hex hoffers hbuy hchain =>
    rw [if_neg hex, Reading.run_bind_of_ok (Reading.ask_of_ok hoffers),
      if_neg (not_not.mpr hbuy), if_pos hchain]
    rfl
  | mounted hex hoffers hbuy hchain hfound =>
    rw [if_neg hex, Reading.run_bind_of_ok (Reading.ask_of_ok hoffers),
      if_neg (not_not.mpr hbuy), if_neg hchain,
      Reading.run_bind_of_ok (Reading.ask_of_ok hfound)]
    rfl

/-- What became of the item at position `j` among those that fit the slot at position `i`. -/
inductive Settled (p : Provider Id) (c : Constraints) (depth : Nat) (chain : List Placement)
    (address : List Nat) (i : Nat) (row : SlotRecord) (item : AllowedItem) (j : Nat) :
    Verdict Part → Prop
  | unavailable (h : Considered p c chain row.id item .unavailable) :
    Settled p c depth chain address i row item j .unavailable
  | cyclic (h : Considered p c chain row.id item .cyclic) :
    Settled p c depth chain address i row item j .cyclic
  | mounted {label : Label} {part : Part} (h : Considered p c chain row.id item (.mounted label))
    (hx : (expand p c depth (⟨item.id, row.id⟩ :: chain) (j :: i :: address) label).run =
      Except.ok part) : Settled p c depth chain address i row item j (.mounted part)

/-- The slot of an expanded item at position `i`, for the row that the catalogue has there. -/
structure SlotExpands (p : Provider Id) (c : Constraints) (depth : Nat) (chain : List Placement)
    (address : List Nat) (ownerId : String) (row : SlotRecord) (i : Nat) (slot : Slot)
    (allowed : List AllowedItem) (verdicts : List (String × Verdict Part)) : Prop where
  read : p.allowed row.id = .ok allowed
  settled : List.Forall₂
    (fun a v => v.1 = a.1.id ∧ Settled p c depth chain address i row a.1 a.2 v.2)
    allowed.zipIdx verdicts
  site : slot.site = ⟨row.id, row.name, ownerId, i :: address, chain,
    (verdicts.filter fun v => v.2.isCyclic).map Prod.fst, []⟩
  candidates : slot.candidates = verdicts.filterMap fun v => v.2.part?

section Levels

variable {chain : List Placement} {address : List Nat} {label : Label} {part : Part} {depth : Nat}

/-- At the depth limit, an item is marked if it has any slots, and they stay closed. -/
theorem expand_zero_ok (h : (expand p c 0 chain address label).run = Except.ok part) :
    ∃ rows, p.slots label.id = .ok rows ∧ part = .mk { label with cut := !rows.isEmpty } [] := by
  rw [expand] at h
  obtain ⟨rows, hrows, h⟩ := Reading.bind_ok h
  exact ⟨rows, Reading.ask_ok hrows, (Reading.pure_ok h).symm⟩

/-- Above the depth limit, an item has a slot for each row that is not ignored. -/
theorem expand_succ_ok (h : (expand p c (depth + 1) chain address label).run = Except.ok part) :
    ∃ rows slots, p.slots label.id = .ok rows ∧ part = .mk label slots ∧
      List.Forall₂
        (fun r slot => ∃ allowed verdicts,
          SlotExpands p c depth chain address label.id r.1 r.2 slot allowed verdicts)
        (rows.filter fun row => ¬ c.Ignores row.name).zipIdx slots := by
  rw [expand] at h
  obtain ⟨rows, hrows, h⟩ := Reading.bind_ok h
  obtain ⟨slots, hslots, h⟩ := Reading.bind_ok h
  refine ⟨rows, slots, Reading.ask_ok hrows, (Reading.pure_ok h).symm, ?_⟩
  refine (Reading.mapM_ok hslots).imp fun r slot hslot => ?_
  obtain ⟨row, i⟩ := r
  obtain ⟨allowed, hallowed, hslot⟩ := Reading.bind_ok hslot
  obtain ⟨verdicts, hverdicts, hslot⟩ := Reading.bind_ok hslot
  have hslot := Reading.pure_ok hslot
  refine ⟨allowed, verdicts, Reading.ask_ok hallowed, ?_, ?_, ?_⟩
  · refine (Reading.mapM_ok hverdicts).imp fun a v hv => ?_
    obtain ⟨item, j⟩ := a
    obtain ⟨verdict, hverdict, hv⟩ := Reading.bind_ok hv
    have hconsidered := consider_ok hverdict
    rcases verdict with _ | _ | label'
    · rw [← Reading.pure_ok hv]
      exact ⟨rfl, Settled.unavailable hconsidered⟩
    · rw [← Reading.pure_ok hv]
      exact ⟨rfl, Settled.cyclic hconsidered⟩
    · obtain ⟨part', hpart', hv⟩ := Reading.bind_ok hv
      rw [← Reading.pure_ok hv]
      exact ⟨rfl, Settled.mounted hconsidered hpart'⟩
  · rw [← hslot]
    rfl
  · rw [← hslot]
    rfl

/-- What was read and settled for the items that fit a slot is all that the slot is made of. -/
theorem Settled.run_settle {i j : Nat} {row : SlotRecord} {item : AllowedItem} {v : Verdict Part}
    (h : Settled p c depth chain address i row item j v) :
    (do
      match ← consider p c chain row.id item with
      | .mounted label =>
        let part ← expand p c depth (⟨item.id, row.id⟩ :: chain) (j :: i :: address) label
        return (item.id, Verdict.mounted part)
      | .cyclic => return (item.id, Verdict.cyclic)
      | .unavailable => return (item.id, Verdict.unavailable) : Reading Id _).run =
      Except.ok (item.id, v) := by
  cases h with
  | unavailable hcons =>
    rw [Reading.run_bind_of_ok hcons.run_consider]
    rfl
  | cyclic hcons =>
    rw [Reading.run_bind_of_ok hcons.run_consider]
    rfl
  | mounted hcons hx =>
    rw [Reading.run_bind_of_ok hcons.run_consider]
    dsimp only
    rw [Reading.run_bind_of_ok hx]
    rfl

/-- An item whose rows were read and whose slots were expanded one by one is expanded. -/
theorem expand_succ_of_slots {rows : List SlotRecord} {slots : List Slot}
    (hrows : p.slots label.id = .ok rows)
    (hslots : List.Forall₂
      (fun r slot => ∃ allowed verdicts,
        SlotExpands p c depth chain address label.id r.1 r.2 slot allowed verdicts)
      (rows.filter fun row => ¬ c.Ignores row.name).zipIdx slots) :
    (expand p c (depth + 1) chain address label).run = Except.ok (.mk label slots) := by
  rw [expand, Reading.run_bind_of_ok (Reading.ask_of_ok hrows)]
  rw [Reading.run_bind_of_ok (Reading.mapM_of_ok (hslots.imp ?_))]
  · rfl
  rintro ⟨row, i⟩ slot ⟨allowed, verdicts, hslot⟩
  dsimp only
  rw [Reading.run_bind_of_ok (Reading.ask_of_ok hslot.read)]
  rw [Reading.run_bind_of_ok (Reading.mapM_of_ok (hslot.settled.imp ?_))]
  · obtain ⟨site, candidates⟩ := slot
    have hsite : site = _ := hslot.site
    have hcandidates : candidates = _ := hslot.candidates
    rw [hsite, hcandidates]
    rfl
  · rintro ⟨item, j⟩ ⟨id, v⟩ ⟨hname, hsettled⟩
    obtain rfl : id = item.id := hname
    exact hsettled.run_settle

/-- The expanded item is the item it started from, marked or not. -/
theorem expand_label (h : (expand p c depth chain address label).run = Except.ok part) :
    ∃ cut, part.label = { label with cut := cut } := by
  cases depth with
  | zero =>
    obtain ⟨rows, -, rfl⟩ := expand_zero_ok h
    exact ⟨_, rfl⟩
  | succ depth =>
    obtain ⟨rows, slots, -, rfl, -⟩ := expand_succ_ok h
    exact ⟨label.cut, rfl⟩

/-- The slots of an expanded item, each with what it was expanded from. -/
theorem expand_slot (h : (expand p c depth chain address label).run = Except.ok part) {s : Slot}
    (hs : s ∈ part.slots) : ∃ depth' row i allowed verdicts, depth = depth' + 1 ∧
      SlotExpands p c depth' chain address label.id row i s allowed verdicts := by
  cases depth with
  | zero =>
    obtain ⟨rows, -, rfl⟩ := expand_zero_ok h
    exact absurd hs List.not_mem_nil
  | succ depth =>
    obtain ⟨rows, slots, -, rfl, hslots⟩ := expand_succ_ok h
    obtain ⟨⟨row, i⟩, -, allowed, verdicts, hslot⟩ := exists_of_forall₂ hslots hs
    exact ⟨depth, row, i, allowed, verdicts, rfl, hslot⟩

/-- The candidates for a slot are the items that were mounted. -/
theorem SlotExpands.settled_of_mem {ownerId : String} {row : SlotRecord} {i : Nat} {s : Slot}
    {allowed : List AllowedItem} {verdicts : List (String × Verdict Part)}
    (h : SlotExpands p c depth chain address ownerId row i s allowed verdicts) {d : Part}
    (hd : d ∈ s.candidates) :
    ∃ item ∈ allowed, ∃ j, Settled p c depth chain address i row item j (.mounted d) := by
  rw [h.candidates, List.mem_filterMap] at hd
  obtain ⟨v, hv, hpart⟩ := hd
  obtain ⟨⟨item, j⟩, hitem, -, hsettled⟩ := exists_of_forall₂ h.settled hv
  refine ⟨item, List.fst_mem_of_mem_zipIdx hitem, j, ?_⟩
  obtain ⟨id, verdict⟩ := v
  cases verdict with
  | unavailable => exact absurd hpart nofun
  | cyclic => exact absurd hpart nofun
  | mounted d' =>
    rw [← Option.some.inj hpart]
    exact hsettled

end Levels

/-! ### What the tree knows -/

/-- The item was expanded, somewhere in the tree. -/
def Expanded (p : Provider Id) (c : Constraints) (part : Part) : Prop :=
  ∃ depth chain address label, (expand p c depth chain address label).run = Except.ok part

/-- The item carries what the catalogue says of it. -/
structure Part.Faithful (p : Provider Id) (part : Part) (found : Properties) : Prop where
  properties : p.properties part.id = .ok found
  modifiers : part.label.modifiers = found.modifiers
  declared : part.label.declared = NameSet.ofList found.conflicts

namespace Expanded

variable {part d : Part} {s : Slot}

theorem ownerId (h : Expanded p c part) (hs : s ∈ part.slots) : s.site.ownerId = part.id := by
  obtain ⟨depth, chain, address, label, h⟩ := h
  obtain ⟨cut, hlabel⟩ := expand_label h
  obtain ⟨_, row, i, allowed, verdicts, -, hslot⟩ := expand_slot h hs
  rw [hslot.site, Part.id, hlabel]

theorem candidate (h : Expanded p c part) (hs : s ∈ part.slots) (hd : d ∈ s.candidates) :
    Expanded p c d ∧ ∃ found, d.Faithful p found := by
  obtain ⟨depth, chain, address, label, h⟩ := h
  obtain ⟨_, row, i, allowed, verdicts, -, hslot⟩ := expand_slot h hs
  obtain ⟨item, -, j, hsettled⟩ := hslot.settled_of_mem hd
  cases hsettled with
  | mounted hcons hx =>
    obtain ⟨cut, hlabel⟩ := expand_label hx
    refine ⟨⟨_, _, _, _, hx⟩, ?_⟩
    cases hcons with
    | @mounted _ found _ _ _ _ hfound =>
      refine ⟨found, ?_, ?_, ?_⟩
      · rw [Part.id, hlabel]
        exact hfound
      · rw [hlabel]
        rfl
      · rw [hlabel]
        rfl

theorem attached (h : Expanded p c part) (hd : part.Attached d) :
    Expanded p c d ∧ ∃ found, d.Faithful p found := by
  induction part using Part.induct_slots with
  | step part ih =>
    obtain ⟨s, hs, e, he, rfl | hde⟩ := Part.attached_iff.mp hd
    · exact h.candidate hs he
    · exact ih s hs e he (h.candidate hs he).1 hde

end Expanded

/-! ### Addresses -/

/-- Lists of addresses that are told apart by the position that precedes a common part. -/
theorem nodup_flatMap_of_position {β : Type} {ys : List β} {f : β → List (List Nat)}
    {address : List Nat} (hnodup : ∀ y ∈ ys, (f y).Nodup)
    (hpos : ∀ i (hi : i < ys.length), ∀ a ∈ f ys[i], ∃ l, a = l ++ i :: address) :
    (ys.flatMap f).Nodup := by
  refine List.nodup_flatMap.mpr ⟨hnodup, List.pairwise_iff_getElem.mpr ?_⟩
  intro i j hi hj hij a hai haj
  obtain ⟨l, rfl⟩ := hpos i hi a hai
  obtain ⟨l', heq⟩ := hpos j hj _ haj
  rw [List.append_cons l i, List.append_cons l' j] at heq
  have hlast := List.append_inj_right' (List.append_cancel_right heq) rfl
  exact Nat.ne_of_lt hij (List.singleton_inj.mp hlast)

/-- The addresses below what became of an item that fits a slot. -/
def Verdict.addresses (v : String × Verdict Part) : List (List Nat) :=
  match v.2 with
  | .mounted part => part.addresses
  | _ => []

theorem flatMap_addresses_filterMap (verdicts : List (String × Verdict Part)) :
    (verdicts.filterMap fun v => v.2.part?).flatMap Part.addresses =
      verdicts.flatMap Verdict.addresses := by
  induction verdicts with
  | nil => rfl
  | cons v vs ih =>
    obtain ⟨id, verdict⟩ := v
    rw [List.flatMap_cons, ← ih]
    cases verdict <;> rfl

/-- Addresses are different and lie below a common one. -/
def Below (address : List Nat) (addresses : List (List Nat)) : Prop :=
  addresses.Nodup ∧ ∀ a ∈ addresses, ∃ l i, a = l ++ i :: address

theorem below_nil (address : List Nat) : Below address [] :=
  ⟨List.nodup_nil, fun _ ha => absurd ha List.not_mem_nil⟩

/-- Addresses that lie below an address at a position lie below the address itself. -/
theorem Below.at_position {address : List Nat} {i : Nat} {addresses : List (List Nat)}
    (h : Below (i :: address) addresses) : ∀ a ∈ addresses, ∃ l, a = l ++ i :: address := by
  intro a ha
  obtain ⟨l, j, rfl⟩ := h.2 a ha
  exact ⟨l ++ [j], List.append_cons ..⟩

section Below

variable {depth : Nat}
  (ih : ∀ {chain : List Placement} {address : List Nat} {label : Label} {part : Part},
    (expand p c depth chain address label).run = Except.ok part → Below address part.addresses)

include ih

theorem Settled.below {chain : List Placement} {address : List Nat} {i j : Nat} {row : SlotRecord}
    {item : AllowedItem} {v : String × Verdict Part}
    (h : Settled p c depth chain address i row item j v.2) :
    Below (j :: i :: address) (Verdict.addresses v) := by
  obtain ⟨id, verdict⟩ := v
  cases h with
  | unavailable _ => exact below_nil _
  | cyclic _ => exact below_nil _
  | mounted _ hx => exact ih hx

theorem SlotExpands.below {chain : List Placement} {address : List Nat} {ownerId : String}
    {row : SlotRecord} {i : Nat} {s : Slot} {allowed : List AllowedItem}
    {verdicts : List (String × Verdict Part)}
    (h : SlotExpands p c depth chain address ownerId row i s allowed verdicts) :
    s.site.address = i :: address ∧
      Below (i :: address) (s.candidates.flatMap Part.addresses) := by
  refine ⟨by rw [h.site], ?_⟩
  have hverdict : ∀ j (hj : j < verdicts.length),
      Below (j :: i :: address) (Verdict.addresses verdicts[j]) := by
    intro j hj
    obtain ⟨item, -, hsettled⟩ := exists_of_forall₂_zipIdx h.settled j hj
    exact hsettled.below ih
  rw [h.candidates, flatMap_addresses_filterMap]
  refine ⟨nodup_flatMap_of_position (fun v hv => ?_) fun j hj => (hverdict j hj).at_position,
    fun a ha => ?_⟩
  · obtain ⟨j, hj, rfl⟩ := List.getElem_of_mem hv
    exact (hverdict j hj).1
  · obtain ⟨v, hv, ha⟩ := List.mem_flatMap.mp ha
    obtain ⟨j, hj, rfl⟩ := List.getElem_of_mem hv
    obtain ⟨l, rfl⟩ := (hverdict j hj).at_position a ha
    exact ⟨l, j, rfl⟩

end Below

/-- The slots below an expanded item lie below its address, at different addresses. -/
theorem expand_below {depth : Nat} : ∀ {chain : List Placement} {address : List Nat}
    {label : Label} {part : Part},
    (expand p c depth chain address label).run = Except.ok part →
      Below address part.addresses := by
  induction depth with
  | zero =>
    intro chain address label part h
    obtain ⟨rows, -, rfl⟩ := expand_zero_ok h
    exact below_nil _
  | succ depth ih =>
    intro chain address label part h
    obtain ⟨rows, slots, -, rfl, hslots⟩ := expand_succ_ok h
    have hslot : ∀ i (hi : i < slots.length), slots[i].site.address = i :: address ∧
        Below (i :: address) (slots[i].candidates.flatMap Part.addresses) := by
      intro i hi
      obtain ⟨row, allowed, verdicts, hs⟩ := exists_of_forall₂_zipIdx hslots i hi
      exact hs.below ih
    have hpos : ∀ i (hi : i < slots.length),
        ∀ a ∈ slots[i].site.address :: slots[i].candidates.flatMap Part.addresses,
          ∃ l, a = l ++ i :: address := by
      intro i hi a ha
      rcases List.mem_cons.mp ha with rfl | ha'
      · exact ⟨[], (hslot i hi).1⟩
      · exact (hslot i hi).2.at_position a ha'
    rw [Part.addresses_eq, Part.slots]
    refine ⟨nodup_flatMap_of_position (fun s hs => ?_) hpos, fun a ha => ?_⟩
    · obtain ⟨i, hi, rfl⟩ := List.getElem_of_mem hs
      refine List.nodup_cons.mpr ⟨fun hmem => ?_, (hslot i hi).2.1⟩
      -- What lies below a slot has a longer address than the slot.
      obtain ⟨l, j, heq⟩ := (hslot i hi).2.2 _ hmem
      have hlen := congrArg List.length ((hslot i hi).1.symm.trans heq)
      simp only [List.length_cons, List.length_append] at hlen
      omega
    · obtain ⟨s, hs, ha⟩ := List.mem_flatMap.mp ha
      obtain ⟨i, hi, rfl⟩ := List.getElem_of_mem hs
      obtain ⟨l, rfl⟩ := hpos i hi a ha
      exact ⟨l, i, rfl⟩

theorem Expanded.distinctAddresses {part : Part} (h : Expanded p c part) :
    part.DistinctAddresses := by
  obtain ⟨_, _, _, _, h⟩ := h
  exact (expand_below h).1

end Gunsmith
