/-
  Rating the tree in the tables.

  Items and slots are rated from the leaves up, each edit changing one rating.  Meanwhile an item
  may be rated or not, and nothing but the ratings tells what has been done, so what a step keeps
  is said of all trees that the tables hold (`Arena.Rates`): they are held as before, and what was
  rated right is so still.  The second part rests on `Part.Held.rating_congr`, by which an item has
  only one right rating.
-/
import Gunsmith.Proofs.Arena.Answers
import Gunsmith.Proofs.Arena.Mirroring

namespace Gunsmith

open Growing

/-! ### Rating -/

variable {m m' : ConflictMap}

/-- From `a` to `b` nothing has changed but ratings, and what was rated right is so still. -/
structure Arena.Rates (m : ConflictMap) (a b : Arena) : Prop where
  items : ∀ (j : Nat) (node : ItemNode), a.items[j]? = some node →
    ∃ r, b.items[j]? = some (node.withRating r) ∧
      ∀ part : Part, part.Held a.view j → node.rating = part.rating m → r = part.rating m
  slots : ∀ (t : Nat) (node : SlotNode), a.slots[t]? = some node →
    ∃ range, b.slots[t]? = some (node.withBounds range) ∧
      ∀ slot : Slot, slot.Held a.view t → node.bounds = slot.bounds → range = slot.bounds
  truncated : b.truncated = a.truncated

namespace Arena.Rates

variable {a b c : Arena} {part : Part} {slot : Slot} {i s : Nat}

theorem view_slot (h : a.Rates m b) {q : Slot} {t : Nat} {node : SlotNode}
    (hnode : a.view.slot q t node) : ∃ range, b.view.slot q t (node.withBounds range) := by
  obtain ⟨range, hrange, -⟩ := h.slots t node hnode.2
  exact ⟨range, Nat.zero_le t, hrange⟩

theorem rated_slot (h : a.Rates m b) {q : Slot} {t : Nat} {node : SlotNode}
    (hq : q.Held (a.rated m) t) (hnode : (a.rated m).slot q t node) :
    ∃ range, (b.rated m).slot q t (node.withBounds range) := by
  obtain ⟨range, hrange, hkeep⟩ := h.slots t node hnode.1
  exact ⟨range, hrange, hkeep q hq.of_rated hnode.2⟩

theorem held (h : a.Rates m b) (hheld : part.Held a.view i) : part.Held b.view i := by
  refine hheld.imp ?_ fun _ _ _ _ => h.view_slot
  rintro q j node - ⟨-, hnode⟩
  obtain ⟨r, hr, -⟩ := h.items j node hnode
  exact ⟨r, Nat.zero_le j, hr⟩

theorem held_rated (h : a.Rates m b) (hheld : part.Held (a.rated m) i) :
    part.Held (b.rated m) i := by
  refine hheld.imp ?_ fun _ _ _ => h.rated_slot
  rintro q j node hq ⟨hnode, hrating⟩
  obtain ⟨r, hr, hkeep⟩ := h.items j node hnode
  exact ⟨r, hr, hkeep q hq.of_rated hrating⟩

theorem slot_held (h : a.Rates m b) (hheld : slot.Held a.view s) : slot.Held b.view s :=
  hheld.imp (fun _ _ _ _ => h.view_slot) fun _ _ _ hc => h.held hc

theorem slot_held_rated (h : a.Rates m b) (hheld : slot.Held (a.rated m) s) :
    slot.Held (b.rated m) s :=
  hheld.imp (fun _ _ _ => h.rated_slot) fun _ _ _ hc => h.held_rated hc

theorem refl (a : Arena) : a.Rates m a where
  items _ node hnode := ⟨node.rating, hnode, fun _ _ h => h⟩
  slots _ node hnode := ⟨node.bounds, hnode, fun _ _ h => h⟩
  truncated := rfl

theorem trans (h : a.Rates m b) (h' : b.Rates m c) : a.Rates m c where
  items _ node hnode := by
    obtain ⟨r, hr, hkeep⟩ := h.items _ node hnode
    obtain ⟨r', hr', hkeep'⟩ := h'.items _ _ hr
    exact ⟨r', hr', fun part hpart hrating => hkeep' part (h.held hpart) (hkeep part hpart hrating)⟩
  slots t node hnode := by
    obtain ⟨range, hrange, hkeep⟩ := h.slots t node hnode
    obtain ⟨range', hrange', hkeep'⟩ := h'.slots t _ hrange
    exact ⟨range', hrange', fun slot hslot hbounds =>
      hkeep' slot (h.slot_held hslot) (hkeep slot hslot hbounds)⟩
  truncated := h'.truncated.trans h.truncated

end Arena.Rates

variable {g : Growth} {part : Part} {i s : Nat}

/-- Rating a slot as some slot of a tree has it that it can be read as. -/
theorem Arena.rates_rateSlot {a : Arena} {slot : Slot} {range : Bounds}
    (hheld : slot.Held a.view s) (hrange : range = slot.bounds) :
    a.Rates m (a.apply (.rateSlot s range)) where
  items j node hnode := ⟨node.rating, hnode, fun _ _ h => h⟩
  slots t node hnode := by
    by_cases hst : s = t
    · refine ⟨range, ?_, fun slot' hslot' _ => ?_⟩
      · simp [Arena.apply, Arena.modifySlot, hst, hnode, SlotNode.withBounds]
      · rw [hrange]
        exact (hst ▸ hheld).bounds_congr hslot'
    · refine ⟨node.bounds, ?_, fun _ _ h => h⟩
      simp [Arena.apply, Arena.modifySlot, hst, hnode, SlotNode.withBounds]
  truncated := rfl

/-- Rating an item as some tree does that it can be read as. -/
theorem Arena.rates_rateItem {a : Arena} {r : Rating} (hheld : part.Held a.view i)
    (hr : r = part.rating m) : a.Rates m (a.apply (.rateItem i r.bounds r.conflictFree)) where
  items j node hnode := by
    by_cases hij : i = j
    · -- Some other tree may be read here as well, and must not be rated differently.
      refine ⟨r, ?_, fun part' hpart' _ => ?_⟩
      · simp [Arena.apply, Arena.modifyItem, hij, hnode, ItemNode.withRating]
      · rw [hr]
        exact (hij ▸ hheld).rating_congr hpart'
    · refine ⟨node.rating, ?_, fun _ _ h => h⟩
      simp [Arena.apply, Arena.modifyItem, hij, hnode, ItemNode.withRating, ItemNode.rating]
  slots t node hnode := ⟨node.bounds, hnode, fun _ _ h => h⟩
  truncated := rfl

/-- Ratings depend on which items have live conflicts, and on nothing else of a record. -/
theorem Rating.ofItem_congr (hlive : ∀ id, m'.Live id ↔ m.Live id) :
    Rating.ofItem m' = Rating.ofItem m := by
  funext id modifiers slots
  have hdecide : decide (¬ m'.Live id) = decide (¬ m.Live id) :=
    decide_eq_decide.mpr (not_congr (hlive id))
  rw [Rating.ofItem, Rating.ofItem, hdecide]

/-- What rating a tree comes to. -/
def Annotated (m : ConflictMap) (part : Part) (i : Nat) (g : Growth) (r : Rating) (g' : Growth) :
    Prop :=
  r = part.rating m ∧ g.arena.Rates m g'.arena ∧ part.Held (g'.arena.rated m) i

/-- Rating a slot, by a way to rate its candidates. -/
theorem succeeds_rateSlot {slot : Slot} {rate : Nat → Growing Rating}
    (hcandidates : ∀ c ∈ slot.candidates, ∀ {g i}, c.Held g.arena.view i →
      Succeeds (rate i) g (Annotated m c i g))
    (h : slot.Held g.arena.view s) :
    Succeeds (rateSlot rate s) g fun r g' =>
      r = slot.rating m ∧ g.arena.Rates m g'.arena ∧ slot.Held (g'.arena.rated m) s := by
  obtain ⟨node, ⟨-, hnode⟩, hshows, hheld⟩ := Slot.held_iff.mp h
  unfold rateSlot
  apply (succeeds_answer (fun a => a.slots[s]?) hnode).bind
  rintro node g - ⟨rfl, rfl⟩
  refine (Succeeds.mapM (F := Part.rating m) (K := fun g g' => g.arena.Rates m g'.arena)
    (S := fun g c i => c.Held g.arena.view i) (T := fun g c i => c.Held (g.arena.rated m) i)
    (fun g => Arena.Rates.refl g.arena) (fun h h' => h.trans h') (fun h _ _ => h.held)
    (fun h _ _ => h.held_rated) (fun c hc _ _ => hcandidates c hc) hheld).bind ?_
  rintro _ g' - ⟨rfl, hrates, hheld'⟩
  obtain ⟨range, hrange, -⟩ := hrates.slots s node hnode
  have hs : s < g'.arena.slots.length := (List.getElem?_eq_some_iff.mp hrange).1
  apply (succeeds_edit (e := .rateSlot s _) hs).bind
  rintro _ _ - rfl
  have hrates' := Arena.rates_rateSlot (m := m) (hrates.slot_held h) (slot.bounds_rating m)
  refine Succeeds.pure ⟨rfl, hrates.trans hrates', ?_⟩
  refine Slot.held_iff.mpr ⟨(node.withBounds range).withBounds (slot.rating m).bounds,
    ⟨?_, slot.bounds_rating m⟩, (hshows.withBounds range).withBounds _,
    hheld'.imp fun _ _ => hrates'.held_rated⟩
  simp [Growth.edited, Arena.apply, Arena.modifySlot, hrange, SlotNode.withBounds, Slot.rating]

/-- Rating an item and everything below it, with steps enough to come to the leaves. -/
theorem succeeds_annotate (hlive : ∀ id, m'.Live id ↔ m.Live id) (h : part.Held g.arena.view i)
    {steps : Nat} (hsteps : part.height < steps) :
    Succeeds (annotate m' steps i) g (Annotated m part i g) := by
  induction part using Part.induct_slots generalizing g i steps with
  | step part ih =>
    obtain ⟨node, ⟨-, hnode⟩, hshows, hslots⟩ := Part.held_iff.mp h
    obtain ⟨steps, rfl⟩ : ∃ k, steps = k + 1 := ⟨steps - 1, by omega⟩
    rw [annotate]
    apply (succeeds_answer (fun a => a.items[i]?) hnode).bind
    rintro node g - ⟨rfl, rfl⟩
    refine (Succeeds.mapM (F := Slot.rating m) (K := fun g g' => g.arena.Rates m g'.arena)
      (S := fun g slot s => slot.Held g.arena.view s)
      (T := fun g slot s => slot.Held (g.arena.rated m) s) (fun g => Arena.Rates.refl g.arena)
      (fun h h' => h.trans h') (fun h _ _ => h.slot_held) (fun h _ _ => h.slot_held_rated)
      (fun slot hslot _ _ hs => succeeds_rateSlot (fun c hc g i hheld => ?_) hs) hslots).bind ?_
    · have hlt := Part.height_lt_of_child (Part.mem_children.mpr ⟨slot, hslot, hc⟩)
      exact ih slot hslot c hc hheld (by omega)
    rintro _ g' - ⟨rfl, hrates, hheld⟩
    have hrating : Rating.ofItem m' node.id node.modifiers (part.slots.map (Slot.rating m)) =
        part.rating m := by
      rw [Part.rating_eq, hshows.id, hshows.modifiers, Rating.ofItem_congr hlive]
      rfl
    -- Meanwhile the entry of the item itself may have been rated, but it is still there.
    obtain ⟨r, hr, -⟩ := hrates.items i node hnode
    have hi := (List.getElem?_eq_some_iff.mp hr).1
    apply (succeeds_edit (e := .rateItem i _ _) hi).bind
    rintro _ _ - rfl
    have hrates' := Arena.rates_rateItem (hrates.held h) hrating
    refine Succeeds.pure ⟨hrating, hrates.trans hrates', ?_⟩
    refine Part.held_iff.mpr ⟨(node.withRating r).withRating (part.rating m), ⟨?_, rfl⟩,
      (hshows.withRating r).withRating _, hheld.imp fun _ _ => hrates'.slot_held_rated⟩
    rw [hrating]
    simp [Growth.edited, Arena.apply, Arena.modifyItem, hr, ItemNode.withRating]

/-- **Rating a tree** from the leaves up rates every item as the tree does. -/
theorem succeeds_annotateAll (hlive : ∀ id, m'.Live id ↔ m.Live id) (hwf : g.arena.WellFormed)
    (h : part.Held g.arena.view 0) : Succeeds (annotateAll m') g (Annotated m part 0 g) := by
  unfold annotateAll
  apply (succeeds_answer (fun a => some a.items.length) rfl).bind
  rintro _ g - ⟨rfl, rfl⟩
  have hlt := h.height_lt hwf
  exact succeeds_annotate hlive h (by omega)

end Gunsmith
