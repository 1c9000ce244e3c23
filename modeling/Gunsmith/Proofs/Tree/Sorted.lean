/-
  The candidates of a finished tree are in order.

  Candidates are put into order by their best reachable value, and some of them are dropped
  afterwards, here and below the others.  This changes what else can be reached below a
  candidate, but not the best value: a candidate is dropped only in favour of one that is at
  least as good and stays, at every level (`Part.best_prune`, `Slot.best_prune`).

  So the finished tree, whose bounds are those after the dropping, is still in the order
  into which it was put before.  In every slot each candidate strictly precedes those behind
  it (`Part.Before`), because no item is listed twice for a slot
  (`CandidateTree.candidates_sorted`).
-/
import Gunsmith.Proofs.Tree.Legal
import Gunsmith.Proofs.Tree.Exchange

namespace Gunsmith

/-! ### The order -/

namespace Part

variable {stat : Stat} {a b c : Part}

/-- Candidate `a` is tried before candidate `b`: its best reachable value is better, or equal while
its own modifier is better, or both are equal and its id is smaller. -/
def Before (stat : Stat) (a b : Part) : Prop :=
  stat.Better (a.bounds.best stat) (b.bounds.best stat) ∨
    (a.bounds.best stat = b.bounds.best stat ∧
      (stat.Better (a.label.modifiers.pick stat) (b.label.modifiers.pick stat) ∨
        (a.label.modifiers.pick stat = b.label.modifiers.pick stat ∧ a.id < b.id)))

theorem Precedes.trans (h₁ : a.Precedes stat b) (h₂ : b.Precedes stat c) :
    a.Precedes stat c := by
  rcases h₁ with h₁ | ⟨e₁, h₁⟩ <;> rcases h₂ with h₂ | ⟨e₂, h₂⟩
  · exact Or.inl (h₁.trans h₂)
  · exact Or.inl (e₂ ▸ h₁)
  · exact Or.inl (e₁ ▸ h₂)
  · refine Or.inr ⟨e₁.trans e₂, ?_⟩
    rcases h₁ with h₁ | ⟨f₁, h₁⟩ <;> rcases h₂ with h₂ | ⟨f₂, h₂⟩
    · exact Or.inl (h₁.trans h₂)
    · exact Or.inl (f₂ ▸ h₁)
    · exact Or.inl (f₁ ▸ h₂)
    · exact Or.inr ⟨f₁.trans f₂, le_trans h₁ h₂⟩

theorem precedes_total (stat : Stat) (a b : Part) : a.Precedes stat b ∨ b.Precedes stat a := by
  by_cases hab : stat.Better (a.bounds.best stat) (b.bounds.best stat)
  · exact Or.inl (Or.inl hab)
  by_cases hba : stat.Better (b.bounds.best stat) (a.bounds.best stat)
  · exact Or.inr (Or.inl hba)
  have hbest := Stat.eq_of_not_better hab hba
  by_cases hab' : stat.Better (a.label.modifiers.pick stat) (b.label.modifiers.pick stat)
  · exact Or.inl (Or.inr ⟨hbest, Or.inl hab'⟩)
  by_cases hba' : stat.Better (b.label.modifiers.pick stat) (a.label.modifiers.pick stat)
  · exact Or.inr (Or.inr ⟨hbest.symm, Or.inl hba'⟩)
  have hown := Stat.eq_of_not_better hab' hba'
  rcases le_total a.id b.id with hid | hid
  · exact Or.inl (Or.inr ⟨hbest, Or.inr ⟨hown, hid⟩⟩)
  · exact Or.inr (Or.inr ⟨hbest.symm, Or.inr ⟨hown.symm, hid⟩⟩)

/-- The order leaves nothing open between items with different ids. -/
theorem Precedes.before (h : a.Precedes stat b) (hne : a.id ≠ b.id) : a.Before stat b :=
  h.imp_right fun ⟨hbest, h⟩ =>
    ⟨hbest, h.imp_right fun ⟨hown, hid⟩ => ⟨hown, lt_of_le_of_ne hid hne⟩⟩

end Part

namespace Slot

variable {stat : Stat} {s : Slot}

/-- Candidates that were put into order are in order, up to equal ids. -/
theorem pairwise_precedes_ordered (stat : Stat) (s : Slot) :
    (s.ordered stat).candidates.Pairwise (Part.Precedes stat) := by
  let le (a b : Part) : Bool := decide (a.Precedes stat b)
  have htrans : ∀ a b c, le a b = true → le b c = true → le a c = true := fun a b c hab hbc =>
    decide_eq_true ((of_decide_eq_true hab).trans (of_decide_eq_true hbc))
  have htotal : ∀ a b, (le a b || le b a) = true := by
    intro a b
    rw [Bool.or_eq_true, decide_eq_true_eq, decide_eq_true_eq]
    exact Part.precedes_total stat a b
  rw [ordered_eq]
  exact (List.pairwise_mergeSort htrans htotal _).imp of_decide_eq_true

/-- **Candidates that were put into order** are in order, if no two of them have the same id. -/
theorem pairwise_before_ordered (h : (s.candidates.map Part.id).Nodup) :
    (s.ordered stat).candidates.Pairwise (Part.Before stat) := by
  have hids : ((s.ordered stat).candidates.map Part.id).Nodup := by
    refine ((s.perm_candidates_ordered stat).map Part.id).nodup_iff.mpr ?_
    have hsame : (s.candidates.map (Part.ordered stat)).map Part.id = s.candidates.map Part.id := by
      rw [List.map_map]
      exact List.map_congr_left fun d _ => (trimming_ordered stat).id d
    exact hsame.symm ▸ h
  have hne : (s.ordered stat).candidates.Pairwise fun a b => a.id ≠ b.id :=
    List.pairwise_map.mp hids
  exact (pairwise_precedes_ordered stat s).imp₂ (fun _ _ hle hne => hle.before hne) hne

end Slot

/-! ### Dropping keeps the best value -/

section Best

variable {m : ConflictMap} {stat : Stat} {s : Slot}

/-- A candidate that removes another one is at least as good at its best. -/
theorem Rating.Removes.not_better_best {a b : Rating} {k j : Nat} (h : a.Removes stat k b j) :
    ¬ stat.Better (b.bounds.best stat) (a.bounds.best stat) := by
  rcases h.2.2 with hbetter | ⟨hbest, -⟩
  · exact hbetter.asymm
  · rw [hbest]
    exact Stat.better_irrefl stat _

/-- Dropping candidates from a slot keeps its best value, if it does so below each of them. -/
theorem Slot.best_prune_of_candidates
    (h : ∀ c ∈ s.candidates, (c.prune m stat).bounds.best stat = c.bounds.best stat) :
    (s.prune m stat).bounds.best stat = s.bounds.best stat := by
  simp only [Bounds.best_eq] at h ⊢
  refine @Stat.eq_of_not_better stat _ _ ?_ ?_
  · -- Whatever is best afterwards was there before.
    rcases @Slot.extreme_bounds_cases stat stat (s.prune m stat) with hzero | ⟨d, hd, hbest⟩
    · rw [hzero]
      exact s.not_better_extreme_of_skip
    · obtain ⟨c, hc, rfl⟩ := (trimming_prune m stat).mem_candidates hd
      rw [hbest, h c hc]
      exact Slot.not_better_extreme_of_mem hc
  · -- What was best before is there still, or a kept rival of it is.
    rcases @Slot.extreme_bounds_cases stat stat s with hzero | ⟨c, hc, hbest⟩
    · rw [hzero]
      exact (s.prune m stat).not_better_extreme_of_skip
    obtain ⟨j, hj, rfl⟩ := List.getElem_of_mem hc
    have hkept : ∀ k : Fin s.candidates.length, (¬ ∃ i, s.Removes m stat i k) →
        ¬ stat.Better (s.candidates[k].bounds.extreme stat stat)
          ((s.prune m stat).bounds.extreme stat stat) := by
      intro k hk
      rw [← h s.candidates[k] (List.getElem_mem k.isLt)]
      exact Slot.not_better_extreme_of_mem (Slot.mem_candidates_prune.mpr ⟨k, hk, rfl⟩)
    rw [hbest]
    by_cases hremoved : ∃ k, s.Removes m stat k ⟨j, hj⟩
    · obtain ⟨k, hk, hkeep⟩ := Slot.exists_kept_remover hremoved
      have hrival := Rating.Removes.not_better_best hk
      rw [Bounds.best_eq, Bounds.best_eq] at hrival
      exact Stat.not_better_trans (hkept k hkeep) hrival
    · exact hkept ⟨j, hj⟩ hremoved

/-- **Dropping candidates keeps the best value of an item.** -/
theorem Part.best_prune (m : ConflictMap) (stat : Stat) (part : Part) :
    (part.prune m stat).bounds.best stat = part.bounds.best stat := by
  induction part using Part.induct_slots with
  | step part ih =>
    have hslot : ∀ s ∈ part.slots, (s.prune m stat).bounds.extreme stat stat =
        s.bounds.extreme stat stat := by
      intro s hs
      rw [← Bounds.best_eq, ← Bounds.best_eq]
      exact Slot.best_prune_of_candidates (ih s hs)
    rw [Bounds.best_eq, Bounds.best_eq, Part.extreme_bounds, Part.extreme_bounds,
      (trimming_prune m stat).label, (trimming_prune m stat).slots, Slot.extremes, Slot.extremes,
      List.map_map]
    exact congrArg (fun values => part.label.modifiers.pick stat + total values)
      (List.map_congr_left hslot)

/-- **Dropping candidates keeps the best value of a slot.** -/
theorem Slot.best_prune (m : ConflictMap) (stat : Stat) (s : Slot) :
    (s.prune m stat).bounds.best stat = s.bounds.best stat :=
  best_prune_of_candidates fun c _ => c.best_prune m stat

/-- Dropping candidates keeps the order of what it keeps. -/
theorem Part.before_prune_iff {a b : Part} :
    (a.prune m stat).Before stat (b.prune m stat) ↔ a.Before stat b := by
  unfold Before
  rw [a.best_prune, b.best_prune, (trimming_prune m stat).label, (trimming_prune m stat).label,
    (trimming_prune m stat).id, (trimming_prune m stat).id]

/-- Dropping candidates keeps the order of what it keeps, up to equal ids. -/
theorem Part.precedes_prune_iff {a b : Part} :
    (a.prune m stat).Precedes stat (b.prune m stat) ↔ a.Precedes stat b := by
  unfold Precedes
  rw [a.best_prune, b.best_prune, (trimming_prune m stat).label, (trimming_prune m stat).label,
    (trimming_prune m stat).id, (trimming_prune m stat).id]

/-- **Candidates in order stay in order** when some of them are dropped, here and below the others,
if the order is one that dropping below two items keeps. -/
theorem Slot.pairwise_prune {r : Part → Part → Prop}
    (hr : ∀ a b : Part, r a b → r (a.prune m stat) (b.prune m stat))
    (h : s.candidates.Pairwise r) :
    (s.prune m stat).candidates.Pairwise r := by
  rw [candidates_prune]
  refine List.Pairwise.sublist (selectMarked_sublist _ _) (List.pairwise_map.mpr ?_)
  exact h.imp (hr _ _)

end Best

/-! ### Items that are listed once -/

/-- No item is listed twice for a slot. -/
def Provider.ListsOnce (p : Provider Id) : Prop :=
  ∀ slotId allowed, p.allowed slotId = .ok allowed → (allowed.map AllowedItem.id).Nodup

/-- In a catalogue that has its keys no item is listed twice for a slot. -/
theorem Store.CatalogueKeys.listsOnce {s : Store} (h : s.CatalogueKeys) : s.provider.ListsOnce :=
  fun _ _ hallowed => h.nodup_allowedIn hallowed

/-- No two candidates for a slot of an expanded item have the same id. -/
theorem Expanded.nodup_candidates {p : Provider Id} {c : Constraints} {part : Part}
    (h : Expanded p c part) (hp : p.ListsOnce) {s : Slot} (hs : s ∈ part.allSlots) :
    (s.candidates.map Part.id).Nodup := by
  induction part using Part.induct_slots with
  | step part ih =>
    obtain ⟨t, ht, rfl | ⟨d, hd, hs⟩⟩ := Part.mem_allSlots.mp hs
    · obtain ⟨_, _, _, _, hexpand⟩ := h
      obtain ⟨_, row, i, allowed, verdicts, -, hslot⟩ := expand_slot hexpand ht
      rw [hslot.map_id_candidates]
      exact (AllSettled.nodup_ids hslot.settled (hp _ _ hslot.read)).of_append_left
    · exact ih t ht d hd (h.candidate ht hd).1 hs

/-! ### Built trees -/

namespace CandidateTree

variable {p : Provider Id} {c : Constraints} {maxDepth : Nat} {weaponId : String} {stat : Stat}
  {tree : CandidateTree}

/-- **The candidates of a finished tree are in order.**  In a tree that was built, each candidate
for a slot comes before those behind it, by the bounds that the finished tree has, and strictly so
if no item is listed twice for a slot.  It was put into order before candidates were dropped, but
the dropping left every item and every slot the best value that it had. -/
theorem candidates_sorted (hbuild : (build p maxDepth weaponId stat c).run = Except.ok tree) :
    (∀ s ∈ tree.root.allSlots, s.candidates.Pairwise (Part.Precedes stat)) ∧
    (p.ListsOnce → ∀ s ∈ tree.root.allSlots, s.candidates.Pairwise (Part.Before stat)) ∧
    ∃ part, (expansion p maxDepth weaponId c).run = Except.ok part ∧
      tree.root = (part.ordered stat).prune tree.conflicts stat ∧
      (∀ y, y = tree.root ∨ tree.root.Attached y →
        ∃ x, (x = part.ordered stat ∨ (part.ordered stat).Attached x) ∧
          y = x.prune tree.conflicts stat ∧ y.bounds.best stat = x.bounds.best stat) ∧
      (∀ s ∈ tree.root.allSlots, ∃ t ∈ (part.ordered stat).allSlots,
        s = t.prune tree.conflicts stat ∧ s.bounds.best stat = t.bounds.best stat) := by
  obtain ⟨part, hpart, hexpanded, rfl⟩ := build_ok hbuild
  have htrim := trimming_prune part.declarations.symmetric stat
  refine ⟨fun s hs => ?_, fun hp s hs => ?_, part, hpart, rfl, fun y hy => ?_, fun s hs => ?_⟩
  · obtain ⟨t, ht, rfl⟩ := htrim.mem_allSlots hs
    obtain ⟨u, -, rfl⟩ := (trimming_ordered stat).mem_allSlots ht
    exact Slot.pairwise_prune (fun _ _ => Part.precedes_prune_iff.mpr)
      (u.pairwise_precedes_ordered stat)
  · obtain ⟨t, ht, rfl⟩ := htrim.mem_allSlots hs
    obtain ⟨u, hu, rfl⟩ := (trimming_ordered stat).mem_allSlots ht
    exact Slot.pairwise_prune (fun _ _ => Part.before_prune_iff.mpr)
      (Slot.pairwise_before_ordered (hexpanded.nodup_candidates hp hu))
  · rcases hy with rfl | hy
    · exact ⟨_, Or.inl rfl, rfl, Part.best_prune _ stat _⟩
    · obtain ⟨x, hx, rfl⟩ := htrim.attached hy
      exact ⟨x, Or.inr hx, rfl, x.best_prune _ stat⟩
  · obtain ⟨t, ht, rfl⟩ := htrim.mem_allSlots hs
    exact ⟨t, ht, rfl, t.best_prune _ stat⟩

/-- A muzzle, a rail that is worth as much with what it carries, a stock, and two attachments of no
use.  The muzzle and the rail exclude each other. -/
def tiedStore : Store :=
  { Store.fresh with
    items := some
      [⟨"w", "Rifle", .weapon, ⟨100, 50⟩⟩, ⟨"a", "Muzzle", .attachment, ⟨-3, 0⟩⟩,
        ⟨"b", "Rail", .attachment, ⟨-2, 0⟩⟩, ⟨"c", "Stock", .attachment, ⟨-1, 0⟩⟩,
        ⟨"d", "Light", .attachment, ⟨2, 9⟩⟩, ⟨"x", "Grip", .attachment, ⟨-1, 0⟩⟩,
        ⟨"y", "Rest", .attachment, ⟨4, -7⟩⟩]
    slots := some [⟨"w_rail", "w", "Rail", 0⟩, ⟨"b_rail", "b", "Rail", 0⟩]
    allowed := some
      [⟨"w_rail", "d", 0⟩, ⟨"w_rail", "c", 1⟩, ⟨"w_rail", "b", 2⟩, ⟨"w_rail", "a", 3⟩,
        ⟨"b_rail", "y", 0⟩, ⟨"b_rail", "x", 1⟩]
    conflicts := some [⟨"a", "b"⟩]
    offers := some
      [⟨"a", "Prapor", 1, 100⟩, ⟨"b", "Prapor", 1, 100⟩, ⟨"c", "Prapor", 1, 100⟩,
        ⟨"d", "Prapor", 1, 100⟩, ⟨"x", "Prapor", 1, 100⟩, ⟨"y", "Prapor", 1, 100⟩] }

/-- The listed order is turned around: the muzzle comes before the rail, whose own modifier is
weaker, and the light, which only makes things worse, is dropped. -/
theorem candidates_sorted_sample : tiedStore.provider.ListsOnce ∧ ∃ tree,
    (build tiedStore.provider 4 "w" .recoil (.ofLevels (.uniform 4))).run = Except.ok tree ∧
      (tree.root.allSlots.map fun s => (s.candidates.map Part.id, s.site.pruned)) =
        [(["a", "b", "c"], ["d"]), (["x"], ["y"])] ∧
      ∀ s ∈ tree.root.allSlots, s.candidates.Pairwise (Part.Before .recoil) := by
  have hkeys : tiedStore.CatalogueKeys := ⟨by decide, by decide, by decide⟩
  have horder : ((build tiedStore.provider 4 "w" .recoil (.ofLevels (.uniform 4))).run.toOption.map
      fun tree => tree.root.allSlots.map fun s => (s.candidates.map Part.id, s.site.pruned)) =
      some [(["a", "b", "c"], ["d"]), (["x"], ["y"])] := by cbv
  rcases hbuild : (build tiedStore.provider 4 "w" .recoil (.ofLevels (.uniform 4))).run
    with e | tree
  · rw [hbuild] at horder
    cases horder
  · rw [hbuild] at horder
    obtain ⟨-, hsorted, -⟩ := candidates_sorted hbuild
    exact ⟨hkeys.listsOnce, tree, rfl, Option.some.inj horder, hsorted hkeys.listsOnce⟩

end CandidateTree

end Gunsmith
