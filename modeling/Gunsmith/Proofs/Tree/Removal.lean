/-
  Candidates cannot remove one another in a circle.

  Whether a candidate is dropped depends on the bounds of two candidates, on the conflicts of
  one of them and, when nothing else tells them apart, on their places in the list.  Two
  candidates that removed each other would both be dropped, and with them the build that
  either of them stands for.

  This cannot happen.  If the bounds are proper, no smallest value being above the largest one,
  then to outrank carries on from one range to the next (`Bounds.Outranks.trans`), the places
  deciding between equals.  So removal is irreflexive and transitive among any rated candidates
  (`Rating.drops_irrefl`, `Rating.Drops.trans`), and of the candidates that remove a given one
  there is one that nothing removes (`Rating.exists_kept_dropping`).  The bounds of every item
  of a tree are proper (`Part.proper_bounds`).
-/
import Gunsmith.Proofs.Tree.Range
import Gunsmith.Proofs.Tree.Trimming
import Mathlib.Data.Fintype.EquivFin
import Mathlib.Order.WellFounded

namespace Gunsmith

/-! ### Proper bounds -/

/-- On both axes the smallest reachable value is at most the largest one. -/
structure Bounds.Proper (b : Bounds) : Prop where
  recoil : b.low.recoil ≤ b.high.recoil
  ergonomics : b.low.ergonomics ≤ b.high.ergonomics

namespace Bounds

variable {stat : Stat} {a b c : Bounds} {first first' first'' : Bool}

/-- The worst value of a proper range is not better than the best one. -/
theorem Proper.not_better (h : a.Proper) (stat : Stat) :
    ¬ stat.Better (a.worst stat) (a.best stat) := by
  have hrecoil := h.recoil
  have hergonomics := h.ergonomics
  cases stat <;> simp only [Stat.Better, worst, best] <;> omega

/-- No proper range outranks itself, if it does not come before itself. -/
theorem Proper.not_outranks_self (h : a.Proper) : ¬ a.Outranks a stat false := by
  rintro (hbest | ⟨-, hsecondary | ⟨-, hfirst⟩⟩)
  · exact Stat.better_irrefl _ _ hbest
  · exact h.not_better stat.secondary hsecondary
  · exact absurd hfirst Bool.false_ne_true

/-- To outrank carries on over a proper range. -/
theorem Outranks.trans (h₁ : a.Outranks b stat first) (hb : b.Proper)
    (h₂ : b.Outranks c stat first') (hfirst : first = true → first' = true → first'' = true) :
    a.Outranks c stat first'' := by
  have hvalid := hb.not_better stat.secondary
  rcases h₁ with h₁ | ⟨e₁, h₁⟩ <;> rcases h₂ with h₂ | ⟨e₂, h₂⟩
  · exact Or.inl (h₁.trans h₂)
  · exact Or.inl (e₂ ▸ h₁)
  · exact Or.inl (e₁ ▸ h₂)
  · -- The focused values are equal, so both steps are decided by the secondary ones.
    refine Or.inr ⟨e₁.trans e₂, ?_⟩
    rcases h₁ with h₁ | ⟨h₁, hf₁⟩ <;> rcases h₂ with h₂ | ⟨h₂, hf₂⟩
    · exact Or.inl (h₁.trans (Stat.better_of_not_better_of_better hvalid h₂))
    · exact Or.inl (Stat.better_of_better_of_not_better h₁ (h₂ ▸ hvalid))
    · exact Or.inl (h₁ ▸ Stat.better_of_not_better_of_better hvalid h₂)
    · by_cases hb : stat.secondary.Better (b.best stat.secondary) (c.best stat.secondary)
      · exact Or.inl (h₁ ▸ hb)
      · have heq := Stat.eq_of_not_better hb (h₂ ▸ hvalid)
        exact Or.inr ⟨h₁.trans heq, hfirst hf₁ hf₂⟩

end Bounds

/-- The bounds of an item enclose what its slots can be filled with, so they are proper. -/
theorem Part.proper_bounds (part : Part) : part.bounds.Proper := by
  have henclosed : ∀ stat, ¬ Stat.Better stat (part.bounds.worst stat) (part.bounds.best stat) := by
    intro stat
    have hfilled := fills_empty part.slots
    have hbest := Part.not_better_extreme stat stat hfilled
    have hworst := Part.not_better_extreme stat.secondary stat hfilled
    rw [Stat.better_secondary, ← Bounds.worst_eq] at hworst
    rw [← Bounds.best_eq] at hbest
    exact Stat.not_better_trans hbest hworst
  have hrecoil := henclosed .recoil
  have hergonomics := henclosed .ergonomics
  simp only [Stat.Better, Bounds.worst, Bounds.best] at hrecoil hergonomics
  constructor <;> omega

/-! ### Removal among rated candidates -/

namespace Rating

section Marks

variable {stat : Stat} {ratings : List Rating} {j : Nat} {mark : Bool}

/-- The mark at a position says whether some other candidate removes the one there. -/
theorem getElem?_removed :
    (removed stat ratings)[j]? = some mark ↔ ∃ target, ratings[j]? = some target ∧
      (mark = true ↔ ∃ (k : Nat) (rival : Rating),
        ratings[k]? = some rival ∧ rival.Removes stat k target j) := by
  unfold removed
  rw [List.getElem?_map, List.getElem?_zipIdx, Option.map_map, Option.map_eq_some_iff]
  refine exists_congr fun target => and_congr_right fun _ => ?_
  have hany : (ratings.zipIdx.any fun r => decide (r.1.Removes stat r.2 target j)) = true ↔
      ∃ (k : Nat) (rival : Rating),
        ratings[k]? = some rival ∧ rival.Removes stat k target j := by
    rw [List.any_eq_true]
    constructor
    · rintro ⟨⟨rival, k⟩, hmem, hremoves⟩
      exact ⟨k, rival, List.mem_zipIdx_iff_getElem?.mp hmem, of_decide_eq_true hremoves⟩
    · rintro ⟨k, rival, hget, hremoves⟩
      exact ⟨(rival, k), List.mem_zipIdx_iff_getElem?.mpr hget, decide_eq_true hremoves⟩
  rw [← hany]
  simp only [Function.comp_apply, Nat.zero_add]
  constructor
  · rintro rfl
    exact Iff.rfl
  · exact fun h => Bool.eq_iff_iff.mpr h.symm

end Marks

variable {α : Type} (stat : Stat) (rate : α → Rating) (xs : List α)

/-- The candidate at position `k` of a list that is rated removes the one at position `j`. -/
def Drops (k j : Fin xs.length) : Prop :=
  (rate xs[k]).Removes stat k (rate xs[j]) j

/-- For each candidate of the list, in order: some other one removes it. -/
def marks : List Bool := removed stat (xs.map rate)

variable {stat rate xs}

theorem getElem?_marks (j : Fin xs.length) {mark : Bool} :
    (marks stat rate xs)[(j : Nat)]? = some mark ↔
      (mark = true ↔ ∃ k, Drops stat rate xs k j) := by
  unfold marks
  simp only [getElem?_removed, List.getElem?_map, Option.map_eq_some_iff]
  have hj : xs[(j : Nat)]? = some xs[j] := List.getElem?_eq_getElem j.isLt
  have hrivals : (∃ (k : Nat) (rival : Rating), (∃ x, xs[k]? = some x ∧ rate x = rival) ∧
      rival.Removes stat k (rate xs[j]) j) ↔ ∃ k, Drops stat rate xs k j := by
    constructor
    · rintro ⟨k, -, ⟨x, hget, rfl⟩, hremoves⟩
      obtain ⟨hk, rfl⟩ := List.getElem?_eq_some_iff.mp hget
      exact ⟨⟨k, hk⟩, hremoves⟩
    · rintro ⟨k, hremoves⟩
      exact ⟨k, _, ⟨_, List.getElem?_eq_getElem k.isLt, rfl⟩, hremoves⟩
  simp only [hj, Option.some.injEq]
  rw [← hrivals]
  simp

theorem drops_irrefl (j : Fin xs.length) : ¬ Drops stat rate xs j j :=
  fun h => h.2.1 rfl

section Proper

variable (hproper : ∀ x ∈ xs, (rate x).bounds.Proper)

include hproper

/-- What removes the remover of a candidate removes the candidate. -/
theorem Drops.trans {i k j : Fin xs.length} (h₁ : Drops stat rate xs i k)
    (h₂ : Drops stat rate xs k j) : Drops stat rate xs i j := by
  have hk : (rate xs[k]).bounds.Proper := hproper _ (List.getElem_mem k.isLt)
  have hij : (i : Nat) ≠ j := by
    -- Otherwise the candidate would outrank itself by way of its remover.
    intro heq
    obtain rfl : i = j := Fin.ext heq
    have hi : (rate xs[i]).bounds.Proper := hproper _ (List.getElem_mem i.isLt)
    have hself : ¬ (rate xs[i]).bounds.Outranks (rate xs[i]).bounds stat false :=
      hi.not_outranks_self
    apply hself
    apply h₁.2.2.trans hk h₂.2.2
    simp only [decide_eq_true_eq, Bool.false_eq_true]
    omega
  refine ⟨h₁.1, hij, h₁.2.2.trans hk h₂.2.2 ?_⟩
  simp only [decide_eq_true_eq]
  omega

/-- There are no circles of candidates each of which removes the next one. -/
theorem not_transGen_drops_self (j : Fin xs.length) :
    ¬ Relation.TransGen (Drops stat rate xs) j j := by
  have hshort : ∀ {i}, Relation.TransGen (Drops stat rate xs) i j → Drops stat rate xs i j := by
    intro i hpath
    induction hpath using Relation.TransGen.head_induction_on with
    | single h => exact h
    | head h _ ih => exact h.trans hproper ih
  exact fun hcircle => drops_irrefl j (hshort hcircle)

theorem wellFounded_drops : WellFounded (Drops stat rate xs) := by
  have : IsTrans _ (Drops stat rate xs) := ⟨fun _ _ _ h₁ h₂ => h₁.trans hproper h₂⟩
  have : Std.Irrefl (Drops stat rate xs) := ⟨drops_irrefl⟩
  exact Finite.wellFounded_of_trans_of_irrefl _

/-- **Of the candidates that remove a given one, one is kept.** -/
theorem exists_kept_dropping {j : Fin xs.length} (h : ∃ k, Drops stat rate xs k j) :
    ∃ k, Drops stat rate xs k j ∧ ¬ ∃ i, Drops stat rate xs i k := by
  obtain ⟨k, hk, hmin⟩ := (wellFounded_drops hproper).has_min {k | Drops stat rate xs k j} h
  exact ⟨k, hk, fun ⟨i, hi⟩ => hmin i (hi.trans hproper hk) hi⟩

/-- Something is kept of every list that is not empty. -/
theorem selectMarked_marks_ne_nil (hne : xs ≠ []) :
    selectMarked false xs (marks stat rate xs) ≠ [] := by
  have hsome : Nonempty (Fin xs.length) := ⟨⟨0, List.length_pos_iff.mpr hne⟩⟩
  have hwf : WellFounded (Drops stat rate xs) := wellFounded_drops hproper
  obtain ⟨k, -, hmin⟩ := hwf.has_min Set.univ Set.univ_nonempty
  have hkept : (marks stat rate xs)[(k : Nat)]? = some false := by
    rw [getElem?_marks]
    simpa using fun i => hmin i trivial
  have hget : xs[(k : Nat)]? = some xs[k] := List.getElem?_eq_getElem k.isLt
  exact List.ne_nil_of_mem (mem_selectMarked.mpr ⟨k, hget, hkept⟩)

end Proper

end Rating

/-! ### Pruning keeps what it relies on -/

/-- No slot loses all its candidates. -/
theorem Slot.candidates_prune_ne_nil (m : ConflictMap) (stat : Stat) {s : Slot}
    (h : s.candidates ≠ []) : (s.prune m stat).candidates ≠ [] := by
  have hkept : selectMarked false s.candidates
      (Rating.marks stat (Part.rating m) s.candidates) ≠ [] :=
    Rating.selectMarked_marks_ne_nil (fun c _ => c.proper_bounds) h
  rw [Slot.candidates_prune, selectMarked_map]
  exact fun hnil => hkept (List.map_eq_nil_iff.mp hnil)

/-- Removal is a strict order on some rated candidates, and it leaves a remover of everything that
it drops. -/
structure StrictRemoval {α : Type} (stat : Stat) (rate : α → Rating) (xs : List α) : Prop where
  irrefl : ∀ j, ¬ Rating.Drops stat rate xs j j
  trans : ∀ i k j, Rating.Drops stat rate xs i k → Rating.Drops stat rate xs k j →
    Rating.Drops stat rate xs i j
  acyclic : ∀ j, ¬ Relation.TransGen (Rating.Drops stat rate xs) j j
  /-- The candidates that are dropped are those that some other one removes. -/
  dropped : ∀ j : Fin xs.length, (Rating.marks stat rate xs)[(j : Nat)]? = some true ↔
    ∃ k, Rating.Drops stat rate xs k j
  /-- What is dropped is removed by a conflict-free candidate that is kept. -/
  remover : ∀ j : Fin xs.length, (Rating.marks stat rate xs)[(j : Nat)]? = some true →
    ∃ k : Fin xs.length, Rating.Drops stat rate xs k j ∧ (rate xs[k]).conflictFree = true ∧
      (Rating.marks stat rate xs)[(k : Nat)]? = some false
  kept : xs ≠ [] → selectMarked false xs (Rating.marks stat rate xs) ≠ []
  /-- A slot with candidates that are rated so does not become empty. -/
  slot : ∀ m (s : Slot), s.candidates.map (Part.rating m) = xs.map rate → xs ≠ [] →
    (s.prune m stat).candidates ≠ []

/-- **Candidates with proper bounds cannot remove one another in a circle.** -/
theorem strictRemoval {α : Type} (stat : Stat) (rate : α → Rating) (xs : List α)
    (hproper : ∀ x ∈ xs, (rate x).bounds.Proper) : StrictRemoval stat rate xs where
  irrefl := Rating.drops_irrefl
  trans _ _ _ h₁ h₂ := h₁.trans hproper h₂
  acyclic := Rating.not_transGen_drops_self hproper
  dropped j := by simp [Rating.getElem?_marks]
  remover j hmark := by
    simp only [Rating.getElem?_marks, true_iff, Bool.false_eq_true, false_iff] at hmark ⊢
    obtain ⟨k, hk, hkept⟩ := Rating.exists_kept_dropping hproper hmark
    exact ⟨k, hk, hk.1, hkept⟩
  kept := Rating.selectMarked_marks_ne_nil hproper
  slot m s hrated hne := by
    apply Slot.candidates_prune_ne_nil
    intro hnil
    rw [hnil, List.map_nil] at hrated
    exact hne (List.map_eq_nil_iff.mp hrated.symm)

/-- Two candidates alike and one that both of them remove. -/
def twinRatings : List Rating :=
  [⟨⟨⟨-5, 0⟩, ⟨0, 10⟩⟩, true⟩, ⟨.point ⟨-5, 11⟩, true⟩, ⟨.point ⟨-5, 11⟩, true⟩]

/-- Of two candidates alike the first is kept. -/
theorem strictRemoval_twins :
    (∀ rating ∈ twinRatings, (id rating).bounds.Proper) ∧
      Rating.marks .recoil id twinRatings = [true, false, true] ∧
      StrictRemoval .recoil id twinRatings := by
  have hproper : ∀ rating ∈ twinRatings, (id rating).bounds.Proper := by
    simp only [twinRatings, List.forall_mem_cons, id]
    exact ⟨⟨by decide, by decide⟩, ⟨by decide, by decide⟩, ⟨by decide, by decide⟩,
      fun _ h => absurd h List.not_mem_nil⟩
  exact ⟨hproper, by decide, strictRemoval .recoil id twinRatings hproper⟩

end Gunsmith
