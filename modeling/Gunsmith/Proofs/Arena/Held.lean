/-
  The tree that the tables hold.

  A tree of candidates is written down in the tables if every item and every slot of it has an
  entry that says the same, and the entries refer to each other as the tree is built
  (`Part.Held`).  The tree is followed downwards: which item stands where is known from the lists
  of slots and candidates, and the way up is not looked at.

  Which entries may be used, and what else they have to say, is left open to a `View`.  Entries
  from some number on (`Arena.since`) are those that came later than others, so that growth
  elsewhere leaves them alone (`Part.Held.frame`).  Entries with a rating (`Arena.rated`) rate an
  item, and give the range of a slot, as the tree does.

  The same entry may be read as more than one tree, but these have the same ranges and the same
  freedom from conflicts (`Part.Held.rating_congr`).  So if it is rated as one of them is, then it
  is rated as all of them are (`Part.Held.rated_congr`).
-/
import Gunsmith.Tree.Growth
import Gunsmith.Proofs.Tree.Annotations
import Gunsmith.Proofs.Tree.Listing
import Mathlib.Data.List.Forall2
import Mathlib.Data.Set.Insert

namespace Gunsmith

/-! ### Entries and nodes -/

/-- The entry says of the item what the label says. -/
structure ItemNode.Shows (node : ItemNode) (label : Label) : Prop where
  id : node.id = label.id
  name : node.name = label.name
  kind : node.kind = label.kind
  modifiers : node.modifiers = label.modifiers
  declared : node.declared = label.declared

/-- The entry says of the slot what the site says. -/
structure SlotNode.Shows (slot : SlotNode) (site : Site) : Prop where
  id : slot.id = site.id
  name : slot.name = site.name
  cyclic : slot.cyclic = site.cyclic
  pruned : slot.pruned = site.pruned

theorem ItemNode.shows_ofLabel (label : Label) (parentSlot : Option Nat) :
    (ItemNode.ofLabel label parentSlot).Shows label :=
  ⟨rfl, rfl, rfl, rfl, rfl⟩

/-- The entry with another rating. -/
def ItemNode.withRating (node : ItemNode) (r : Rating) : ItemNode :=
  { node with bounds := r.bounds, conflictFree := r.conflictFree }

/-- The entry with another range. -/
def SlotNode.withBounds (slot : SlotNode) (b : Bounds) : SlotNode := { slot with bounds := b }

theorem ItemNode.Shows.withRating {node : ItemNode} {label : Label} (h : node.Shows label)
    (r : Rating) : (node.withRating r).Shows label :=
  ⟨h.id, h.name, h.kind, h.modifiers, h.declared⟩

theorem SlotNode.Shows.withBounds {slot : SlotNode} {site : Site} (h : slot.Shows site)
    (b : Bounds) : (slot.withBounds b).Shows site :=
  ⟨h.id, h.name, h.cyclic, h.pruned⟩

/-! ### Views -/

/-- Which entries of the tables may be used. -/
structure View where
  /-- The entry of an item at a number. -/
  item : Part → Nat → ItemNode → Prop
  /-- The entry of a slot at a number. -/
  slot : Slot → Nat → SlotNode → Prop

namespace Arena

/-- The entries from some numbers on. -/
def since (a : Arena) (i s : Nat) : View where
  item _ j node := i ≤ j ∧ a.items[j]? = some node
  slot _ t node := s ≤ t ∧ a.slots[t]? = some node

/-- All entries. -/
def view (a : Arena) : View := a.since 0 0

/-- The entries that are rated as they should be. -/
def rated (a : Arena) (m : ConflictMap) : View where
  item part j node := a.items[j]? = some node ∧ node.rating = part.rating m
  slot slot t node := a.slots[t]? = some node ∧ node.bounds = slot.bounds

end Arena

/-! ### Held trees -/

mutual

/-- The tables hold an item, whose number is given, and everything below it. -/
def Part.Held (v : View) : Part → Nat → Prop
  | .mk label slots, i => ∃ node, v.item (.mk label slots) i node ∧ node.Shows label ∧
      Slot.HeldAll v slots node.slots

/-- The tables hold a slot, whose number is given, and everything below it. -/
def Slot.Held (v : View) : Slot → Nat → Prop
  | .mk site candidates, s => ∃ node, v.slot (.mk site candidates) s node ∧ node.Shows site ∧
      Part.HeldAll v candidates node.candidates

/-- The tables hold some slots, one for each number. -/
def Slot.HeldAll (v : View) : List Slot → List Nat → Prop
  | [], [] => True
  | slot :: slots, s :: ss => Slot.Held v slot s ∧ Slot.HeldAll v slots ss
  | _, _ => False

/-- The tables hold some items, one for each number. -/
def Part.HeldAll (v : View) : List Part → List Nat → Prop
  | [], [] => True
  | part :: parts, i :: is => Part.Held v part i ∧ Part.HeldAll v parts is
  | _, _ => False

end

section Held

variable {v w : View} {part : Part} {slot : Slot} {i s : Nat}

theorem Slot.heldAll_iff {slots : List Slot} {ss : List Nat} :
    Slot.HeldAll v slots ss ↔ List.Forall₂ (Slot.Held v) slots ss := by
  induction slots generalizing ss with
  | nil => cases ss <;> simp [Slot.HeldAll]
  | cons slot slots ih => cases ss <;> simp [Slot.HeldAll, ih]

theorem Part.heldAll_iff {parts : List Part} {is : List Nat} :
    Part.HeldAll v parts is ↔ List.Forall₂ (Part.Held v) parts is := by
  induction parts generalizing is with
  | nil => cases is <;> simp [Part.HeldAll]
  | cons part parts ih => cases is <;> simp [Part.HeldAll, ih]

theorem Part.held_iff : part.Held v i ↔ ∃ node, v.item part i node ∧ node.Shows part.label ∧
    List.Forall₂ (Slot.Held v) part.slots node.slots := by
  obtain ⟨label, slots⟩ := part
  rw [Part.Held]
  simp only [Slot.heldAll_iff]
  exact Iff.rfl

theorem Slot.held_iff : slot.Held v s ↔ ∃ node, v.slot slot s node ∧ node.Shows slot.site ∧
    List.Forall₂ (Part.Held v) slot.candidates node.candidates := by
  obtain ⟨site, candidates⟩ := slot
  rw [Slot.Held]
  simp only [Part.heldAll_iff]
  exact Iff.rfl

/-- Two lists side by side, where what holds on the left may be used. -/
theorem forall₂_imp_of_mem {α β : Type} {R S : α → β → Prop} {xs : List α} {ys : List β}
    (h : List.Forall₂ R xs ys) (himp : ∀ x ∈ xs, ∀ y, R x y → S x y) : List.Forall₂ S xs ys := by
  have hmem : List.Forall₂ (fun x y => x ∈ xs ∧ R x y) xs ys :=
    (List.forall₂_and_left xs ys).mpr ⟨fun _ hx => hx, h⟩
  exact hmem.imp fun x y hxy => himp x hxy.1 y hxy.2

theorem Slot.Held.imp
    (hslot : ∀ q t node, q.Held v t → v.slot q t node → ∃ b, w.slot q t (node.withBounds b))
    (hcandidates : ∀ c ∈ slot.candidates, ∀ i, c.Held v i → c.Held w i) (h : slot.Held v s) :
    slot.Held w s := by
  obtain ⟨node, hnode, hshows, hheld⟩ := Slot.held_iff.mp h
  obtain ⟨b, hb⟩ := hslot slot s node h hnode
  have hcandidates' := forall₂_imp_of_mem hheld hcandidates
  exact Slot.held_iff.mpr ⟨_, hb, hshows.withBounds b, hcandidates'⟩

/-- What is held in one view is held in another in which the entries are the same, up to ratings. -/
theorem Part.Held.imp
    (hitem : ∀ q j node, q.Held v j → v.item q j node → ∃ r, w.item q j (node.withRating r))
    (hslot : ∀ q t node, q.Held v t → v.slot q t node → ∃ b, w.slot q t (node.withBounds b))
    (h : part.Held v i) : part.Held w i := by
  induction part using Part.induct_slots generalizing i with
  | step part ih =>
    obtain ⟨node, hnode, hshows, hslots⟩ := Part.held_iff.mp h
    obtain ⟨r, hr⟩ := hitem part i node h hnode
    have hslots' := forall₂_imp_of_mem hslots fun s hs t ht =>
      ht.imp hslot fun c hc j hj => ih s hs c hc hj
    exact Part.held_iff.mpr ⟨_, hr, hshows.withRating r, hslots'⟩

theorem Part.Held.of_rated {a : Arena} {m : ConflictMap} (h : part.Held (a.rated m) i) :
    part.Held a.view i := by
  refine h.imp ?_ ?_
  · rintro q j node - ⟨hnode, -⟩
    exact ⟨node.rating, Nat.zero_le j, hnode⟩
  · rintro q t node - ⟨hnode, -⟩
    exact ⟨node.bounds, Nat.zero_le t, hnode⟩

theorem Slot.Held.of_rated {a : Arena} {m : ConflictMap} (h : slot.Held (a.rated m) s) :
    slot.Held a.view s := by
  refine h.imp ?_ fun _ _ _ hc => hc.of_rated
  rintro q t node - ⟨hnode, -⟩
  exact ⟨node.bounds, Nat.zero_le t, hnode⟩

/-! ### Growth elsewhere -/

/-- Of the entries of `a`, none but the items in `I` and the slots in `S` are changed in `b`. -/
structure Arena.Frame (I S : Set Nat) (a b : Arena) : Prop where
  items : ∀ j node, j ∉ I → a.items[j]? = some node → b.items[j]? = some node
  slots : ∀ t node, t ∉ S → a.slots[t]? = some node → b.slots[t]? = some node

namespace Arena.Frame

variable {I I' S S' : Set Nat} {a b c : Arena}

theorem refl (a : Arena) : Frame I S a a :=
  ⟨fun _ _ _ h => h, fun _ _ _ h => h⟩

/-- What is changed later is either among what was changed before, or was not there. -/
theorem trans (h : Frame I S a b) (h' : Frame I' S' b c)
    (hI : ∀ j < a.items.length, j ∈ I' → j ∈ I) (hS : ∀ t < a.slots.length, t ∈ S' → t ∈ S) :
    Frame I S a c where
  items j node hj hnode := by
    have hlt := (List.getElem?_eq_some_iff.mp hnode).1
    exact h'.items j node (fun hj' => hj (hI j hlt hj')) (h.items j node hj hnode)
  slots t node ht hnode := by
    have hlt := (List.getElem?_eq_some_iff.mp hnode).1
    exact h'.slots t node (fun ht' => ht (hS t hlt ht')) (h.slots t node ht hnode)

end Arena.Frame

namespace Edit

/-- The items that an edit changes; one that it enters is not among them. -/
@[simp]
def changedItems : Edit → Set Nat
  | .slot node => {node.parentItem}
  | .rateItem i _ _ => {i}
  | _ => ∅

/-- The slots that an edit changes; one that it enters is not among them. -/
@[simp]
def changedSlots : Edit → Set Nat
  | .mount s _ => {s}
  | .keepOut s _ => {s}
  | .rateSlot s _ => {s}
  | .select s _ _ => {s}
  | _ => ∅

end Edit

namespace Arena

variable {a : Arena} {e : Edit}

theorem frame_modifyItem (a : Arena) (i : Nat) (f : ItemNode → ItemNode) :
    Frame {i} ∅ a (a.modifyItem i f) where
  items j node hj hnode := by
    have hne : i ≠ j := fun h => hj h.symm
    simp [modifyItem, hne, hnode]
  slots _ _ _ hslot := hslot

theorem frame_modifySlot (a : Arena) (s : Nat) (f : SlotNode → SlotNode) :
    Frame ∅ {s} a (a.modifySlot s f) where
  items _ _ _ hnode := hnode
  slots t node ht hnode := by
    have hne : s ≠ t := fun h => ht h.symm
    simp [modifySlot, hne, hnode]

/-- Other entries than those that it changes are kept by an edit. -/
theorem frame_apply (a : Arena) (e : Edit) :
    Frame e.changedItems e.changedSlots a (a.apply e) := by
  have hkeep : ∀ {α : Type} {xs : List α} {x y : α} {j : Nat}, xs[j]? = some y →
      (xs ++ [x])[j]? = some y := by
    intro α xs x y j h
    rw [List.getElem?_append_left (List.getElem?_eq_some_iff.mp h).1, h]
  cases e with
  | item node => exact ⟨fun _ _ _ h => hkeep h, fun _ _ _ h => h⟩
  | slot node =>
    have henter : Frame ∅ ∅ a { a with slots := a.slots ++ [node] } :=
      ⟨fun _ _ _ h => h, fun _ _ _ h => hkeep h⟩
    refine ⟨fun j old hj h => ?_, fun _ _ _ h => hkeep h⟩
    exact (frame_modifyItem _ _ _).items j old hj h
  | mount s i => exact frame_modifySlot ..
  | keepOut s id => exact frame_modifySlot ..
  | cut => exact ⟨fun _ _ _ h => h, fun _ _ _ h => h⟩
  | rateItem i bounds conflictFree => exact frame_modifyItem ..
  | rateSlot s bounds => exact frame_modifySlot ..
  | select s candidates dropped => exact frame_modifySlot ..

end Arena

section Frame

variable {I S : Set Nat} {a b : Arena} {lo lo' k k' : Nat}

/-- A tree is held as before, if only earlier entries are changed. -/
theorem Part.Held.frame (h : part.Held (a.since lo k) i) (hf : a.Frame I S b)
    (hI : ∀ j ∈ I, j < lo) (hS : ∀ t ∈ S, t < k) : part.Held (b.since lo k) i := by
  refine h.imp ?_ ?_
  · rintro q j node - ⟨hj, hnode⟩
    exact ⟨node.rating, hj, hf.items j node (fun hmem => Nat.not_lt.mpr hj (hI j hmem)) hnode⟩
  · rintro q t node - ⟨ht, hnode⟩
    exact ⟨node.bounds, ht, hf.slots t node (fun hmem => Nat.not_lt.mpr ht (hS t hmem)) hnode⟩

theorem Slot.Held.frame (h : slot.Held (a.since lo k) s) (hf : a.Frame I S b)
    (hI : ∀ j ∈ I, j < lo) (hS : ∀ t ∈ S, t < k) : slot.Held (b.since lo k) s := by
  refine h.imp ?_ fun _ _ _ hc => hc.frame hf hI hS
  rintro q t node - ⟨ht, hnode⟩
  exact ⟨node.bounds, ht, hf.slots t node (fun hmem => Nat.not_lt.mpr ht (hS t hmem)) hnode⟩

/-- What is held by later entries is held by entries that are later than some earlier ones. -/
theorem Part.Held.since_le (h : part.Held (a.since lo k) i) (hlo : lo' ≤ lo) (hk : k' ≤ k) :
    part.Held (a.since lo' k') i := by
  refine h.imp ?_ ?_
  · rintro q j node - ⟨hj, hnode⟩
    exact ⟨node.rating, Nat.le_trans hlo hj, hnode⟩
  · rintro q t node - ⟨ht, hnode⟩
    exact ⟨node.bounds, Nat.le_trans hk ht, hnode⟩

theorem Slot.Held.since_le (h : slot.Held (a.since lo k) s) (hlo : lo' ≤ lo) (hk : k' ≤ k) :
    slot.Held (a.since lo' k') s := by
  refine h.imp ?_ fun _ _ _ hc => hc.since_le hlo hk
  rintro q t node - ⟨ht, hnode⟩
  exact ⟨node.bounds, Nat.le_trans hk ht, hnode⟩

end Frame

/-! ### Ratings -/

/-- The rating of a slot. -/
def Slot.rating (m : ConflictMap) (slot : Slot) : Rating :=
  .ofSlot (slot.candidates.map (Part.rating m))

theorem Slot.bounds_rating (m : ConflictMap) (slot : Slot) :
    (slot.rating m).bounds = slot.bounds := by
  rw [Slot.bounds_eq, Slot.rating, Rating.ofSlot, List.map_map]
  rfl

/-- The rating of an item follows from the ratings of its slots. -/
theorem Part.rating_eq (m : ConflictMap) (part : Part) : part.rating m =
    .ofItem m part.id part.label.modifiers (part.slots.map (Slot.rating m)) := by
  have hbounds : part.bounds = ((part.slots.map (Slot.rating m)).map Rating.bounds).foldl (· + ·)
      (.point part.label.modifiers) := by
    have hslot : Rating.bounds ∘ Slot.rating m = Slot.bounds := funext (Slot.bounds_rating m)
    rw [List.map_map, hslot]
    exact Part.fold_eq ..
  have hfree : part.conflictFree m = (decide (¬ m.Live part.id) &&
      (part.slots.map (Slot.rating m)).all Rating.conflictFree) := by
    unfold Part.conflictFree
    rw [Part.fold_eq, List.all_map, List.all_map]
    congr 2
    funext slot
    rw [Function.comp_apply, Slot.fold_eq, Function.comp_apply, Slot.rating, Rating.ofSlot,
      List.all_map, List.all_map]
    rfl
  rw [Part.rating, Rating.ofItem, ← hbounds, ← hfree]

theorem map_eq_of_forall₂ {α β γ δ : Type} {R : α → γ → Prop} {S : β → γ → Prop} {f : α → δ}
    {g : β → δ} {xs : List α} {ys : List β} {zs : List γ} (hxs : List.Forall₂ R xs zs)
    (hys : List.Forall₂ S ys zs) (hfg : ∀ x ∈ xs, ∀ y z, R x z → S y z → f x = g y) :
    xs.map f = ys.map g := by
  induction hxs generalizing ys with
  | nil =>
    cases hys
    rfl
  | @cons x z xs zs hxz _ ih =>
    cases hys with
    | @cons y _ ys _ hyz hys =>
      rw [List.map_cons, List.map_cons, hfg x List.mem_cons_self y z hxz hyz,
        ih hys fun x' hx' => hfg x' (List.mem_cons_of_mem _ hx')]

/-- The slots that an entry can be read as have the same rating, if the candidates have. -/
theorem Slot.Held.rating_eq {a : Arena} {slot slot' : Slot} {m : ConflictMap}
    (hcandidates : ∀ c ∈ slot.candidates, ∀ (c' : Part) (i : Nat), c.Held a.view i →
      c'.Held a.view i → c.rating m = c'.rating m)
    (h : slot.Held a.view s) (h' : slot'.Held a.view s) : slot.rating m = slot'.rating m := by
  obtain ⟨node, ⟨-, hnode⟩, -, hheld⟩ := Slot.held_iff.mp h
  obtain ⟨node', ⟨-, hnode'⟩, -, hheld'⟩ := Slot.held_iff.mp h'
  obtain rfl : node = node' := Option.some.inj (hnode.symm.trans hnode')
  unfold Slot.rating
  rw [map_eq_of_forall₂ hheld hheld' hcandidates]

/-- The trees that an entry can be read as have the same rating. -/
theorem Part.Held.rating_congr {a : Arena} {part part' : Part} {m : ConflictMap}
    (h : part.Held a.view i) (h' : part'.Held a.view i) : part.rating m = part'.rating m := by
  induction part using Part.induct_slots generalizing part' i with
  | step part ih =>
    -- Addresses and chains may differ between the two trees; ratings do not look at them.
    obtain ⟨node, ⟨-, hnode⟩, hshows, hslots⟩ := Part.held_iff.mp h
    obtain ⟨node', ⟨-, hnode'⟩, hshows', hslots'⟩ := Part.held_iff.mp h'
    obtain rfl : node = node' := Option.some.inj (hnode.symm.trans hnode')
    have hid : part.id = part'.id := hshows.id.symm.trans hshows'.id
    have hmodifiers : part.label.modifiers = part'.label.modifiers :=
      hshows.modifiers.symm.trans hshows'.modifiers
    have hratings : part.slots.map (Slot.rating m) = part'.slots.map (Slot.rating m) :=
      map_eq_of_forall₂ hslots hslots' fun slot hslot _ _ hs hs' =>
        hs.rating_eq (fun c hc _ _ hheld hheld' => ih slot hslot c hc hheld hheld') hs'
    rw [Part.rating_eq, Part.rating_eq, hid, hmodifiers, hratings]

theorem Slot.Held.bounds_congr {a : Arena} {slot slot' : Slot} (h : slot.Held a.view s)
    (h' : slot'.Held a.view s) : slot.bounds = slot'.bounds := by
  have hrating := h.rating_eq (m := .empty) (fun _ _ _ _ hc hc' => hc.rating_congr hc') h'
  rw [← Slot.bounds_rating .empty, ← Slot.bounds_rating .empty, hrating]

/-- If the tables rate all entries as one tree does that can be read in them, then they rate them as
any other one does. -/
theorem Part.Held.rated_congr {a : Arena} {part part' : Part} {m : ConflictMap}
    (h : part.Held (a.rated m) i) (h' : part'.Held a.view i) : part'.Held (a.rated m) i := by
  induction part using Part.induct_slots generalizing part' i with
  | step part ih =>
    obtain ⟨node, ⟨hnode, hrating⟩, -, hslots⟩ := Part.held_iff.mp h
    obtain ⟨node', ⟨-, hnode'⟩, hshows', hslots'⟩ := Part.held_iff.mp h'
    obtain rfl : node = node' := Option.some.inj (hnode.symm.trans hnode')
    have hsame : part.rating m = part'.rating m := h.of_rated.rating_congr h'
    refine Part.held_iff.mpr ⟨node, ⟨hnode, hrating.trans hsame⟩, hshows', ?_⟩
    -- Beside each number there is a slot of either tree, and likewise for the candidates.
    refine (forall₂_imp_of_mem hslots'.flip fun s hmem slot' hs' => ?_).flip
    obtain ⟨slot, hslot, hs⟩ := exists_of_forall₂ hslots hmem
    obtain ⟨node, ⟨hnode, hbounds⟩, -, hheld⟩ := Slot.held_iff.mp hs
    obtain ⟨node', ⟨-, hnode'⟩, hshows', hheld'⟩ := Slot.held_iff.mp hs'
    obtain rfl : node = node' := Option.some.inj (hnode.symm.trans hnode')
    refine Slot.held_iff.mpr
      ⟨node, ⟨hnode, hbounds.trans (hs.of_rated.bounds_congr hs')⟩, hshows', ?_⟩
    refine (forall₂_imp_of_mem hheld'.flip fun i hmem c' hc' => ?_).flip
    obtain ⟨c, hc, hcHeld⟩ := exists_of_forall₂ hheld hmem
    exact ih slot hslot c hc hcHeld hc'

end Held

end Gunsmith
