/-
  Bounds are exact.

  The bounds of an item are computed from those of its slots, conflicts left aside.  No
  way to fill the slots gets beyond them (`Part.not_better_extreme`), and each of the four
  ends is reached by some way to fill the slots (`Part.exists_extreme`).

  The two ends for recoil and the two for ergonomics are treated alike: the end of a range
  in the direction `dir` for the values of `stat` is its `Bounds.extreme`, the smallest
  value if `dir` is the stat that should be small, and the largest otherwise.  The best and
  the worst reachable value are two of these.
-/
import Gunsmith.Proofs.Tree.Feasible

namespace Gunsmith

namespace Bounds

/-- The end of a range of values of `stat` that lies in the direction that is good for `dir`. -/
def extreme (dir stat : Stat) (b : Bounds) : Int :=
  match dir with
  | .recoil => b.low.pick stat
  | .ergonomics => b.high.pick stat

variable {dir stat : Stat} {a b : Bounds} {bs : List Bounds}

theorem best_eq (stat : Stat) (b : Bounds) : b.best stat = b.extreme stat stat := by
  cases stat <;> rfl

theorem worst_eq (stat : Stat) (b : Bounds) : b.worst stat = b.extreme stat.secondary stat := by
  cases stat <;> rfl

theorem extreme_point (dir stat : Stat) (t : Totals) : (point t).extreme dir stat = t.pick stat := by
  cases dir <;> rfl

theorem extreme_add (dir stat : Stat) (a b : Bounds) :
    (a + b).extreme dir stat = a.extreme dir stat + b.extreme dir stat := by
  cases dir <;> exact Totals.pick_add ..

/-- The end of a union is the end of one of the two ranges. -/
theorem extreme_union (dir stat : Stat) (a b : Bounds) :
    (a ∪ b).extreme dir stat = a.extreme dir stat ∨
      (a ∪ b).extreme dir stat = b.extreme dir stat := by
  cases dir <;> cases stat <;> simp only [extreme, Union.union, Totals.pick] <;> omega

theorem not_better_extreme_union_left (dir stat : Stat) (a b : Bounds) :
    ¬ dir.Better (a.extreme dir stat) ((a ∪ b).extreme dir stat) := by
  cases dir <;> cases stat <;>
    simp only [extreme, Union.union, Totals.pick, Stat.Better] <;> omega

theorem not_better_extreme_union_right (dir stat : Stat) (a b : Bounds) :
    ¬ dir.Better (b.extreme dir stat) ((a ∪ b).extreme dir stat) := by
  cases dir <;> cases stat <;>
    simp only [extreme, Union.union, Totals.pick, Stat.Better] <;> omega

theorem extreme_foldl_add (dir stat : Stat) (b : Bounds) (bs : List Bounds) :
    (bs.foldl (· + ·) b).extreme dir stat =
      b.extreme dir stat + total (bs.map (extreme dir stat)) := by
  induction bs generalizing b with
  | nil => simp
  | cons c bs ih =>
    rw [List.foldl_cons, ih, extreme_add, List.map_cons, total_cons, Int.add_assoc]

theorem extreme_foldl_union_mem (dir stat : Stat) (b : Bounds) (bs : List Bounds) :
    ∃ a ∈ b :: bs, (bs.foldl (· ∪ ·) b).extreme dir stat = a.extreme dir stat := by
  induction bs generalizing b with
  | nil => exact ⟨b, List.mem_cons_self, rfl⟩
  | cons c bs ih =>
    rw [List.foldl_cons]
    obtain ⟨a, ha, heq⟩ := ih (b ∪ c)
    rcases List.mem_cons.mp ha with rfl | ha'
    · rcases extreme_union dir stat b c with h | h
      · exact ⟨b, List.mem_cons_self, heq.trans h⟩
      · exact ⟨c, List.mem_cons_of_mem _ List.mem_cons_self, heq.trans h⟩
    · exact ⟨a, List.mem_cons_of_mem _ (List.mem_cons_of_mem _ ha'), heq⟩

theorem not_better_extreme_foldl_union (dir stat : Stat) (b : Bounds) (bs : List Bounds)
    (ha : a ∈ b :: bs) :
    ¬ dir.Better (a.extreme dir stat) ((bs.foldl (· ∪ ·) b).extreme dir stat) := by
  induction bs generalizing a b with
  | nil =>
    rw [List.mem_singleton.mp ha]
    exact Stat.better_irrefl _ _
  | cons c bs ih =>
    rw [List.foldl_cons]
    have hunion := @ih (b ∪ c) (b ∪ c) List.mem_cons_self
    rcases List.mem_cons.mp ha with rfl | ha'
    · exact Stat.not_better_trans hunion (not_better_extreme_union_left dir stat a c)
    · rcases List.mem_cons.mp ha' with rfl | ha''
      · exact Stat.not_better_trans hunion (not_better_extreme_union_right dir stat b a)
      · exact ih (b ∪ c) (List.mem_cons_of_mem _ ha'')

end Bounds

open Bounds Decision

/-! ### One level of a tree -/

variable (dir stat : Stat)

/-- The end of the range that some slots have together. -/
def Slot.extremes (slots : List Slot) : Int :=
  total (slots.map fun s => s.bounds.extreme dir stat)

theorem Part.extreme_bounds (part : Part) :
    part.bounds.extreme dir stat =
      part.label.modifiers.pick stat + Slot.extremes dir stat part.slots := by
  unfold Part.bounds
  rw [Part.fold_eq, Bounds.ofItem, extreme_foldl_add, extreme_point, List.map_map]
  rfl

theorem Slot.bounds_eq (s : Slot) :
    s.bounds = (s.candidates.map Part.bounds).foldl (· ∪ ·) (.point 0) :=
  Slot.fold_eq ..

variable {dir stat}

theorem Slot.not_better_extreme_of_skip (s : Slot) :
    ¬ dir.Better 0 (s.bounds.extreme dir stat) := by
  have h := not_better_extreme_foldl_union dir stat (.point 0) (s.candidates.map Part.bounds)
    List.mem_cons_self
  rwa [extreme_point, Totals.pick_zero, ← Slot.bounds_eq] at h

theorem Slot.not_better_extreme_of_mem {s : Slot} {c : Part} (hc : c ∈ s.candidates) :
    ¬ dir.Better (c.bounds.extreme dir stat) (s.bounds.extreme dir stat) := by
  rw [Slot.bounds_eq]
  exact not_better_extreme_foldl_union dir stat (.point 0) _
    (List.mem_cons_of_mem _ (List.mem_map_of_mem hc))

/-- The end of the range of a slot is reached by leaving it empty or by one of its candidates. -/
theorem Slot.extreme_bounds_cases (s : Slot) :
    s.bounds.extreme dir stat = 0 ∨
      ∃ c ∈ s.candidates, s.bounds.extreme dir stat = c.bounds.extreme dir stat := by
  obtain ⟨a, ha, heq⟩ :=
    extreme_foldl_union_mem dir stat (.point 0) (s.candidates.map Part.bounds)
  rw [← Slot.bounds_eq] at heq
  rcases List.mem_cons.mp ha with rfl | ha'
  · left
    rw [heq, extreme_point, Totals.pick_zero]
  · obtain ⟨c, hc, rfl⟩ := List.mem_map.mp ha'
    exact Or.inr ⟨c, hc, heq⟩

/-! ### All fillings -/

theorem Fills.not_better_extremes (slots : List Slot) : ∀ {ds : List Decision}, Fills slots ds →
    ¬ dir.Better ((sums ds).pick stat) (Slot.extremes dir stat slots) := by
  induction slots using Slot.induct_work with
  | nil =>
    intro ds hds
    rw [fills_nil_iff.mp hds, sums_nil, Totals.pick_zero]
    exact Stat.better_irrefl _ _
  | cons s ss ihr ihc =>
    intro ds hds
    have hcons : Slot.extremes dir stat (s :: ss) =
        s.bounds.extreme dir stat + Slot.extremes dir stat ss := rfl
    rw [hcons]
    rcases fills_cons_iff.mp hds with ⟨es, rfl, hes⟩ | ⟨c, hc, es, rfl, hes⟩
    · rw [sums_cons_none, ← Int.zero_add (Totals.pick _ _)]
      exact Stat.not_better_add s.not_better_extreme_of_skip (ihr hes)
    · obtain ⟨d, e, rfl, hd, he⟩ := fills_append_iff.mp hes
      rw [sums_cons_some, sums_append, ← add_assoc, Totals.pick_add]
      refine Stat.not_better_add ?_ (ihr he)
      refine Stat.not_better_trans (Slot.not_better_extreme_of_mem hc) ?_
      rw [Part.extreme_bounds, Totals.pick_add]
      exact Stat.not_better_add (Stat.better_irrefl _ _) ((ihc c hc).1 hd)

theorem exists_fills_extremes (dir stat : Stat) (slots : List Slot) :
    ∃ ds, Fills slots ds ∧ (sums ds).pick stat = Slot.extremes dir stat slots := by
  induction slots using Slot.induct_work with
  | nil => exact ⟨[], Fills.nil, Totals.pick_zero stat⟩
  | cons s ss ihr ihc =>
    have hcons : Slot.extremes dir stat (s :: ss) =
        s.bounds.extreme dir stat + Slot.extremes dir stat ss := rfl
    obtain ⟨es, hes, hsum⟩ := ihr
    rw [hcons]
    rcases s.extreme_bounds_cases with h | ⟨c, hc, h⟩
    · refine ⟨⟨s, none⟩ :: es, Fills.skip hes, ?_⟩
      rw [h, Int.zero_add]
      exact hsum
    · obtain ⟨ds, hds, hsum'⟩ := (ihc c hc).1
      refine ⟨⟨s, some c⟩ :: (ds ++ es), Fills.mount hc (hds.append hes), ?_⟩
      rw [h, Part.extreme_bounds, sums_cons_some, sums_append, ← add_assoc, Totals.pick_add,
        Totals.pick_add, hsum, hsum']

/-- **Bounds are sound**: no way to fill the slots of an item gets beyond them. -/
theorem Part.not_better_extreme (dir stat : Stat) {part : Part} {ds : List Decision}
    (h : Fills part.slots ds) :
    ¬ dir.Better ((part.totals ds).pick stat) (part.bounds.extreme dir stat) := by
  rw [Part.extreme_bounds, Part.totals, Totals.pick_add]
  exact Stat.not_better_add (Stat.better_irrefl _ _) (Fills.not_better_extremes _ h)

/-- **Bounds are tight**: each of their ends is reached by a way to fill the slots of the item. -/
theorem Part.exists_extreme (dir stat : Stat) (part : Part) :
    ∃ ds, Fills part.slots ds ∧
      (part.totals ds).pick stat = part.bounds.extreme dir stat := by
  obtain ⟨ds, hds, hsum⟩ := exists_fills_extremes dir stat part.slots
  refine ⟨ds, hds, ?_⟩
  rw [Part.extreme_bounds, Part.totals, Totals.pick_add, hsum]

end Gunsmith
