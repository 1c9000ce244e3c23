/-
  The plain recursion, and lists of slots that can be decided in any order.

  `plain` decides the slots of a list from left to right.  It remembers nothing and solves
  nothing apart: an item that is mounted excludes all that is in conflict with it, and its
  slots join the end of the list.  A later way takes over from an earlier one only if it is
  strictly better (`winner`), so among ways that are equally good the first one stays.

  Two lists of slots are apart (`Apart`) if nothing below the ones is in conflict with
  anything below the others.  Then they may be decided in one list, interleaved in any
  way: each of them is decided as it would be alone (`plain_interleave`).  The argument is
  that a choice in one list shifts the sums of all ways to go on by the same amount, which
  does not change which of them is the first best one (`winner_perm`).
-/
import Gunsmith.Proofs.Tree.Feasible

namespace Gunsmith

open Decision

/-! ### Interleaved lists -/

/-- The third list has the members of the two others, in the order that they have there. -/
inductive Interleave {α : Type} : List α → List α → List α → Prop
  | nil : Interleave [] [] []
  | left {x : α} {xs ys zs : List α} (h : Interleave xs ys zs) :
    Interleave (x :: xs) ys (x :: zs)
  | right {y : α} {xs ys zs : List α} (h : Interleave xs ys zs) :
    Interleave xs (y :: ys) (y :: zs)

namespace Interleave

variable {α : Type} {xs ys zs : List α}

theorem symm (h : Interleave xs ys zs) : Interleave ys xs zs := by
  induction h with
  | nil => exact nil
  | left _ ih => exact right ih
  | right _ ih => exact left ih

theorem nil_left (ys : List α) : Interleave [] ys ys := by
  induction ys with
  | nil => exact nil
  | cons y ys ih => exact right ih

theorem append_left (h : Interleave xs ys zs) (ws : List α) :
    Interleave (xs ++ ws) ys (zs ++ ws) := by
  induction h with
  | nil => exact (nil_left ws).symm
  | left _ ih => exact left ih
  | right _ ih => exact right ih

theorem append (xs ys : List α) : Interleave xs ys (xs ++ ys) := by
  induction xs with
  | nil => exact nil_left ys
  | cons x xs ih => exact left ih

end Interleave

/-! ### The first best way -/

theorem Totals.better_add_right {stat : Stat} {a b c : Totals} :
    Better stat (a + c) (b + c) ↔ Better stat a b := by
  unfold Better
  simp only [pick_add]
  cases stat <;> simp only [Stat.Better, Stat.secondary] <;> omega

/-- What is left of an incumbent and its challengers: a challenger takes over only if it is strictly
better. -/
def winner (stat : Stat) (best : List Decision) (options : List (List Decision)) :
    List Decision :=
  options.foldl
    (fun best option => if Totals.Better stat (sums option) (sums best) then option else best) best

theorem winner_cons {stat : Stat} {best option : List Decision} {options : List (List Decision)} :
    winner stat best (option :: options) =
      winner stat (if Totals.Better stat (sums option) (sums best) then option else best) options :=
  rfl

/-- **What all ways have in common does not matter**: if the ways of one contest are those of another
with the same further decisions, then so are the winners. -/
theorem winner_perm {stat : Stat} {best best' ds : List Decision}
    {options options' : List (List Decision)} (hbest : best.Perm (best' ++ ds))
    (hoptions : List.Forall₂ (fun o o' => o.Perm (o' ++ ds)) options options') :
    (winner stat best options).Perm (winner stat best' options' ++ ds) := by
  induction hoptions generalizing best best' with
  | nil => exact hbest
  | @cons o o' options options' ho _ ih =>
    have hsums : ∀ {es es' : List Decision}, es.Perm (es' ++ ds) → sums es = sums es' + sums ds :=
      fun h => (sums_eq_of_perm h).trans sums_append
    have hiff : Totals.Better stat (sums o) (sums best) ↔
        Totals.Better stat (sums o') (sums best') := by
      rw [hsums ho, hsums hbest]
      exact Totals.better_add_right
    rw [winner_cons, winner_cons]
    apply ih
    split_ifs with h h' h'
    · exact ho
    · exact absurd (hiff.mp h) h'
    · exact absurd (hiff.mpr h') h
    · exact hbest

theorem winner_perm_of_perm {stat : Stat} {best best' : List Decision}
    {options options' : List (List Decision)} (hbest : best.Perm best')
    (hoptions : List.Forall₂ List.Perm options options') :
    (winner stat best options).Perm (winner stat best' options') := by
  have h := @winner_perm stat best best' [] options options'
  simp only [List.append_nil] at h
  exact h hbest hoptions

/-! ### The plain recursion -/

section Plain

variable (m : ConflictMap) (stat : Stat)

/-- The candidates for a slot that are not excluded, in order. -/
def Slot.available (slot : Slot) (excluded : NameSet) : List Part :=
  slot.candidates.filter fun c => c.id ∉ excluded

/-- The decisions about some slots and all slots that these decisions open, while some items are
excluded: the first slot is left empty or takes one of its candidates, and then the other slots and
those of the candidate are decided in turn. -/
def plain (slots : List Slot) (excluded : NameSet) : List Decision :=
  match slots with
  | [] => []
  | slot :: rest =>
    winner stat (⟨slot, none⟩ :: plain rest excluded) <|
      (slot.available excluded).attach.map fun c =>
        ⟨slot, some c.val⟩ ::
          plain (rest ++ c.val.slots) (excluded.insertAll (m.conflictsOf c.val.id).toList)
termination_by Slot.totalCount slots
decreasing_by
  · simp only [Slot.totalCount_cons, Slot.slotCount_eq]
    omega
  · have hc := Part.slotCount_le_of_mem (List.mem_of_mem_filter c.property)
    simp only [Slot.totalCount_cons, Slot.totalCount_append, Slot.slotCount_eq,
      Part.slotCount_eq] at hc ⊢
    omega

variable {m stat} {slot : Slot} {rest ss ts : List Slot} {excluded excluded' : NameSet}
  {c : Part}

theorem Slot.mem_available : c ∈ slot.available excluded ↔ c ∈ slot.candidates ∧ c.id ∉ excluded := by
  unfold available
  rw [List.mem_filter, decide_eq_true_eq]

theorem plain_nil : plain m stat [] excluded = [] := by
  rw [plain]

theorem plain_cons :
    plain m stat (slot :: rest) excluded =
      winner stat (⟨slot, none⟩ :: plain m stat rest excluded)
        ((slot.available excluded).map fun c =>
          ⟨slot, some c⟩ ::
            plain m stat (rest ++ c.slots)
              (excluded.insertAll (m.conflictsOf c.id).toList)) := by
  rw [plain]
  congr 1
  exact List.attach_map_val (f := fun c : Part => (⟨slot, some c⟩ : Decision) ::
    plain m stat (rest ++ c.slots) (excluded.insertAll (m.conflictsOf c.id).toList))

/-! ### Exclusions elsewhere -/

/-- The ids of the items that stand at or below candidates for some slots. -/
def Slot.offered (slots : List Slot) : List String :=
  slots.flatMap fun s => s.candidates.flatMap Part.ids

theorem Slot.mem_offered {slots : List Slot} {id : String} :
    id ∈ Slot.offered slots ↔ ∃ s ∈ slots, ∃ c ∈ s.candidates, id ∈ c.ids := by
  unfold offered
  simp only [List.mem_flatMap]

theorem Slot.offered_cons : Slot.offered (slot :: rest) =
    slot.candidates.flatMap Part.ids ++ Slot.offered rest :=
  List.flatMap_cons

theorem Slot.offered_append : Slot.offered (ss ++ ts) = Slot.offered ss ++ Slot.offered ts :=
  List.flatMap_append

theorem Slot.offered_slots_subset (hc : c ∈ slot.candidates) :
    Slot.offered c.slots ⊆ Slot.offered (slot :: rest) := by
  intro id hid
  obtain ⟨s, hs, d, hd, hid⟩ := mem_offered.mp hid
  exact mem_offered.mpr ⟨slot, List.mem_cons_self, c, hc, Part.mem_ids_of_candidate hs hd hid⟩

theorem Slot.id_mem_offered (hc : c ∈ slot.candidates) : c.id ∈ Slot.offered (slot :: rest) :=
  mem_offered.mpr ⟨slot, List.mem_cons_self, c, hc, c.id_mem_ids⟩

theorem Slot.offered_open_subset (hc : c ∈ slot.candidates) :
    Slot.offered (rest ++ c.slots) ⊆ Slot.offered (slot :: rest) := by
  rw [offered_append]
  refine List.append_subset.mpr ⟨?_, offered_slots_subset hc⟩
  rw [offered_cons]
  exact List.subset_append_right _ _

/-- Decisions depend only on what is excluded of the items below the slots. -/
theorem plain_congr (slots : List Slot) : ∀ {excluded excluded' : NameSet},
    (∀ id ∈ Slot.offered slots, (id ∈ excluded ↔ id ∈ excluded')) →
    plain m stat slots excluded = plain m stat slots excluded' := by
  induction slots using Slot.induct_work with
  | nil =>
    intro excluded excluded' _
    rw [plain_nil, plain_nil]
  | cons slot rest ihr ihc =>
    intro excluded excluded' h
    have havail : slot.available excluded = slot.available excluded' := by
      refine List.filter_congr fun c hc => ?_
      rw [decide_eq_decide, not_iff_not]
      exact h _ (Slot.id_mem_offered hc)
    have hrest : ∀ id ∈ Slot.offered rest, (id ∈ excluded ↔ id ∈ excluded') := by
      intro id hid
      rw [Slot.offered_cons] at h
      exact h id (List.mem_append_right _ hid)
    rw [plain_cons, plain_cons, ihr hrest, havail]
    congr 1
    refine List.map_congr_left fun c hc => ?_
    obtain ⟨hc, -⟩ := Slot.mem_available.mp hc
    congr 1
    refine (ihc c hc).2 fun id hid => ?_
    rw [NameSet.mem_insertAll, NameSet.mem_insertAll]
    exact or_congr (h id (Slot.offered_open_subset hc hid)) Iff.rfl

/-- What is in conflict with an item need not be excluded where nothing of it is offered. -/
theorem plain_insertAll {id : String} (h : ∀ a ∈ Slot.offered ss, ¬ m.Conflicts id a) :
    plain m stat ss (excluded.insertAll (m.conflictsOf id).toList) = plain m stat ss excluded := by
  refine plain_congr ss fun a ha => ?_
  rw [NameSet.mem_insertAll]
  exact or_iff_left (h a ha)

/-! ### Slots that are apart -/

/-- Nothing below the ones is in conflict with anything below the others. -/
def Apart (m : ConflictMap) (ss ts : List Slot) : Prop :=
  ∀ a ∈ Slot.offered ss, ∀ b ∈ Slot.offered ts, ¬ m.Conflicts a b

theorem Apart.symm (hm : m.Mutual) (h : Apart m ss ts) : Apart m ts ss :=
  fun a ha b hb hab => h b hb a ha (hm.comm hab)

theorem Apart.mono {ss' : List Slot} (h : Apart m ss ts)
    (hsub : Slot.offered ss' ⊆ Slot.offered ss) : Apart m ss' ts :=
  fun a ha b hb => h a (hsub ha) b hb

/-- One decision for one of two lists that are apart, if all further decisions are made for each of
them alone. -/
theorem plain_cons_perm {us : List Slot} (hap : Apart m (slot :: ss) ts)
    (hskip : (plain m stat us excluded).Perm
      (plain m stat ss excluded ++ plain m stat ts excluded))
    (hmount : ∀ c ∈ slot.candidates, ∀ excluded,
      (plain m stat (us ++ c.slots) excluded).Perm
        (plain m stat (ss ++ c.slots) excluded ++ plain m stat ts excluded)) :
    (plain m stat (slot :: us) excluded).Perm
      (plain m stat (slot :: ss) excluded ++ plain m stat ts excluded) := by
  rw [plain_cons, plain_cons]
  refine winner_perm (hskip.cons _) ?_
  rw [List.forall₂_map_left_iff, List.forall₂_map_right_iff, List.forall₂_same]
  intro c hc
  obtain ⟨hc, -⟩ := Slot.mem_available.mp hc
  -- What the choice excludes is not offered by the other list.
  have hts : plain m stat ts (excluded.insertAll (m.conflictsOf c.id).toList) =
      plain m stat ts excluded :=
    plain_insertAll (hap c.id (Slot.id_mem_offered hc))
  have hopen := hmount c hc (excluded.insertAll (m.conflictsOf c.id).toList)
  rw [hts] at hopen
  exact hopen.cons _

/-- **Slots that are apart are decided apart**: however the two lists are interleaved, each of them is
decided as it would be alone. -/
theorem plain_interleave (hm : m.Mutual) (us : List Slot) : ∀ {ss ts : List Slot},
    Interleave ss ts us → Apart m ss ts → ∀ excluded,
      (plain m stat us excluded).Perm (plain m stat ss excluded ++ plain m stat ts excluded) := by
  induction us using Slot.induct_work with
  | nil =>
    intro ss ts h _ excluded
    cases h
    rw [plain_nil]
    exact List.Perm.nil
  | cons slot us ihr ihc =>
    -- The slot to decide comes from the one list or from the other, which play the same part.
    have hleft : ∀ {ss ts : List Slot}, Interleave ss ts us → Apart m (slot :: ss) ts →
        ∀ excluded, (plain m stat (slot :: us) excluded).Perm
          (plain m stat (slot :: ss) excluded ++ plain m stat ts excluded) := by
      intro ss ts h hap excluded
      have htail : Slot.offered ss ⊆ Slot.offered (slot :: ss) := by
        rw [Slot.offered_cons]
        exact List.subset_append_right _ _
      refine plain_cons_perm hap (ihr h (hap.mono htail) excluded) fun c hc excluded => ?_
      exact (ihc c hc).2 (h.append_left c.slots) (hap.mono (Slot.offered_open_subset hc)) excluded
    intro ss ts h hap excluded
    cases h with
    | left h => exact hleft h hap excluded
    | right h => exact (hleft h.symm (hap.symm hm) excluded).trans List.perm_append_comm

end Plain

end Gunsmith
