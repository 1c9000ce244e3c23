/-
  What a sub-problem is answered with.

  `answer` is the search stripped of its table and its cache: a plain recursion on the
  slots that are still to decide.  It makes the same choices in the same order, so the
  table and the cache can only ever save work (`Gunsmith.Proofs.Search.Refinement`), and
  what is to be said about the solutions is said here:

    * `answer_sound`: an answer records a feasible way to fill the slots, and its sums are
      those of what is mounted;
    * `answer_optimal`: no feasible way to fill the slots is better;
    * `answer_congr`: exclusions of items that stand nowhere below the slots do not matter.

  All of them go by induction on the slots that are still to decide (`Slot.induct_work`).
-/
import Gunsmith.Search.Solver
import Gunsmith.Proofs.Tree.Feasible

namespace Gunsmith

open Decision

/-! ### Solutions as records of decisions -/

/-- The solution records the decisions: it has a selection for each of them, in some order, and its
sums are those of what they mount. -/
structure Solution.Records (sol : Solution) (ds : List Decision) : Prop where
  selections : sol.selections.Perm (ds.map Decision.selection)
  sums : sol.sums = Decision.sums ds

namespace Solution

variable {a b : Solution} {ds es : List Decision} {slot : Slot} {c : Part} {selection : Selection}
  {own : Totals}

theorem sums_prepend_one : (prepend selection own [a]).sums = own + a.sums := rfl

theorem selections_prepend_one :
    (prepend selection own [a]).selections = selection :: a.selections := by
  simp [prepend]

theorem sums_prepend_withOwn :
    (prepend selection 0 [SearchContext.withOwn c a, b]).sums =
      c.label.modifiers + a.sums + b.sums := by
  show 0 + (a.sums + c.label.modifiers) + b.sums = _
  rw [zero_add, add_comm a.sums]

theorem selections_prepend_withOwn :
    (prepend selection 0 [SearchContext.withOwn c a, b]).selections =
      selection :: (a.selections ++ b.selections) := by
  simp [prepend, SearchContext.withOwn]

theorem records_empty : empty.Records [] := ⟨List.Perm.nil, rfl⟩

theorem Records.of_perm (h : a.Records ds) (hp : es.Perm ds) : a.Records es :=
  ⟨h.selections.trans (hp.map _).symm, h.sums.trans (sums_eq_of_perm hp).symm⟩

theorem Records.prepend_none (h : a.Records ds) :
    (prepend (slot.select none) 0 [a]).Records (⟨slot, none⟩ :: ds) where
  selections := by
    rw [selections_prepend_one]
    exact h.selections.cons _
  sums := by
    rw [sums_prepend_one, zero_add]
    exact h.sums

theorem Records.prepend_some (h : a.Records ds) :
    (prepend (slot.select (some c)) c.label.modifiers [a]).Records (⟨slot, some c⟩ :: ds) where
  selections := by
    rw [selections_prepend_one]
    exact h.selections.cons _
  sums := by
    rw [sums_prepend_one, sums_cons_some, h.sums]

theorem Records.prepend_withOwn (ha : a.Records ds) (hb : b.Records es) :
    (prepend (slot.select (some c)) 0 [SearchContext.withOwn c a, b]).Records
      (⟨slot, some c⟩ :: (ds ++ es)) where
  selections := by
    rw [selections_prepend_withOwn, List.map_cons, List.map_append]
    exact (ha.selections.append hb.selections).cons _
  sums := by
    rw [sums_prepend_withOwn, sums_cons_some, sums_append, ha.sums, hb.sums, add_assoc]

end Solution

/-! ### The plain recursion -/

section Answer

variable (m : ConflictMap) (stat : Stat)

mutual

/-- The best way to decide some slots while some items are excluded. -/
def answer (slots : List Slot) (excluded : NameSet) : Solution :=
  match slots with
  | [] => .empty
  | slot :: rest =>
    answerAmong slot slot.candidates rest excluded
      (.prepend (slot.select none) 0 [answer rest excluded])
termination_by (Slot.totalCount slots, 1, 0)
decreasing_by
  · simp only [Slot.totalCount_cons, Slot.slotCount_eq]
    exact Prod.Lex.left _ _ (by omega)
  · simp only [Slot.totalCount_cons, Slot.slotCount_eq]
    exact Prod.Lex.right' _ (by omega) (Prod.Lex.left _ _ (by omega))

/-- The best of an incumbent and the choices of some candidates for a slot. -/
def answerAmong (slot : Slot) (candidates : List Part) (rest : List Slot) (excluded : NameSet)
    (best : Solution) : Solution :=
  match candidates with
  | [] => best
  | c :: cs =>
    if c.id ∈ excluded then
      answerAmong slot cs rest excluded best
    else
      let option := answerChoice slot c rest excluded
      answerAmong slot cs rest excluded (if option.Better stat best then option else best)
termination_by (Slot.totalCount rest + 1 + Part.totalCount candidates, 0, candidates.length + 1)
decreasing_by
  · simp only [Part.totalCount_cons, List.length_cons]
    exact Prod.Lex.right' _ (by omega) (Prod.Lex.right _ (by omega))
  · simp only [Part.totalCount_cons, List.length_cons]
    exact Prod.Lex.right' _ (by omega) (Prod.Lex.right _ (by omega))
  · simp only [Part.totalCount_cons, List.length_cons]
    exact Prod.Lex.right' _ (by omega) (Prod.Lex.right _ (by omega))

/-- The best continuation once a candidate is put into a slot. -/
def answerChoice (slot : Slot) (part : Part) (rest : List Slot) (excluded : NameSet) : Solution :=
  if part.conflictFree m then
    .prepend (slot.select (some part)) 0
      [SearchContext.withOwn part (answer part.slots excluded), answer rest excluded]
  else
    .prepend (slot.select (some part)) part.label.modifiers
      [answer (rest ++ part.slots) (excluded.insertAll (m.conflictsOf part.id).toList)]
termination_by (Slot.totalCount rest + 1 + part.slotCount, 0, 0)
decreasing_by
  · simp only [Part.slotCount_eq]
    exact Prod.Lex.left _ _ (by omega)
  · exact Prod.Lex.left _ _ (by omega)
  · simp only [Slot.totalCount_append, Part.slotCount_eq]
    exact Prod.Lex.left _ _ (by omega)

end

variable {m stat} {slot : Slot} {rest : List Slot} {excluded : NameSet} {part : Part}

theorem answer_nil : answer m stat [] excluded = .empty := by
  rw [answer]

theorem answer_cons :
    answer m stat (slot :: rest) excluded =
      answerAmong m stat slot slot.candidates rest excluded
        (.prepend (slot.select none) 0 [answer m stat rest excluded]) := by
  rw [answer]

theorem answerChoice_of_free (h : part.conflictFree m = true) :
    answerChoice m stat slot part rest excluded =
      .prepend (slot.select (some part)) 0
        [SearchContext.withOwn part (answer m stat part.slots excluded),
          answer m stat rest excluded] := by
  rw [answerChoice, if_pos h]

theorem answerChoice_of_not_free (h : ¬ part.conflictFree m = true) :
    answerChoice m stat slot part rest excluded =
      .prepend (slot.select (some part)) part.label.modifiers
        [answer m stat (rest ++ part.slots)
          (excluded.insertAll (m.conflictsOf part.id).toList)] := by
  rw [answerChoice, if_neg h]

/-- The winner is the incumbent or the choice of a candidate that is not excluded. -/
theorem answerAmong_mem (cs : List Part) (best : Solution) :
    answerAmong m stat slot cs rest excluded best = best ∨
      ∃ c ∈ cs, c.id ∉ excluded ∧
        answerAmong m stat slot cs rest excluded best =
          answerChoice m stat slot c rest excluded := by
  induction cs generalizing best with
  | nil =>
    left
    rw [answerAmong]
  | cons c cs ih =>
    rw [answerAmong]
    split_ifs with hex
    · rcases ih best with h | ⟨d, hd, hdex, h⟩
      · exact Or.inl h
      · exact Or.inr ⟨d, List.mem_cons_of_mem _ hd, hdex, h⟩
    · dsimp only
      rcases ih (if (answerChoice m stat slot c rest excluded).Better stat best then
          answerChoice m stat slot c rest excluded else best) with h | ⟨d, hd, hdex, h⟩
      · rw [h]
        split_ifs
        · exact Or.inr ⟨c, List.mem_cons_self, hex, rfl⟩
        · exact Or.inl rfl
      · exact Or.inr ⟨d, List.mem_cons_of_mem _ hd, hdex, h⟩

/-- The winner is at least as good as the incumbent. -/
theorem answerAmong_atLeast_best (cs : List Part) (best : Solution) :
    Totals.AtLeast stat (answerAmong m stat slot cs rest excluded best).sums best.sums := by
  induction cs generalizing best with
  | nil =>
    rw [answerAmong]
  | cons c cs ih =>
    rw [answerAmong]
    split_ifs with hex
    · exact ih best
    · dsimp only
      refine (ih _).trans ?_
      split_ifs with hb
      · exact Totals.Better.atLeast hb
      · exact Totals.AtLeast.refl _ _

/-- The winner is at least as good as the choice of any candidate that is not excluded. -/
theorem answerAmong_atLeast_choice (cs : List Part) (best : Solution) {c : Part} (hc : c ∈ cs)
    (hex : c.id ∉ excluded) :
    Totals.AtLeast stat (answerAmong m stat slot cs rest excluded best).sums
      (answerChoice m stat slot c rest excluded).sums := by
  induction cs generalizing best with
  | nil => exact absurd hc List.not_mem_nil
  | cons d cs ih =>
    rw [answerAmong]
    rcases List.mem_cons.mp hc with rfl | hc'
    · rw [if_neg hex]
      dsimp only
      refine (answerAmong_atLeast_best cs _).trans ?_
      split_ifs with hb
      · exact Totals.AtLeast.refl _ _
      · exact hb
    · split_ifs
      · exact ih best hc'
      · exact ih _ hc'

/-- Only what is excluded among the candidates and what their choices are worth matters. -/
theorem answerAmong_congr {excluded' : NameSet} (cs : List Part) (best : Solution)
    (hex : ∀ c ∈ cs, (c.id ∈ excluded ↔ c.id ∈ excluded'))
    (hchoice : ∀ c ∈ cs, answerChoice m stat slot c rest excluded =
      answerChoice m stat slot c rest excluded') :
    answerAmong m stat slot cs rest excluded best =
      answerAmong m stat slot cs rest excluded' best := by
  induction cs generalizing best with
  | nil => rw [answerAmong, answerAmong]
  | cons c cs ih =>
    have hcs := fun b => ih b (fun d hd => hex d (List.mem_cons_of_mem _ hd))
      fun d hd => hchoice d (List.mem_cons_of_mem _ hd)
    rw [answerAmong, answerAmong]
    by_cases h : c.id ∈ excluded
    · rw [if_pos h, if_pos ((hex c List.mem_cons_self).mp h)]
      exact hcs best
    · rw [if_neg h, if_neg (mt (hex c List.mem_cons_self).mpr h)]
      dsimp only
      rw [hchoice c List.mem_cons_self]
      exact hcs _

/-- **Exclusions elsewhere do not matter**: an answer depends only on what is excluded of the items
below the slots. -/
theorem answer_congr (slots : List Slot) : ∀ {excluded excluded' : NameSet},
    (∀ s ∈ slots, ∀ c ∈ s.candidates, ∀ id ∈ c.ids, (id ∈ excluded ↔ id ∈ excluded')) →
    answer m stat slots excluded = answer m stat slots excluded' := by
  induction slots using Slot.induct_work with
  | nil =>
    intro excluded excluded' _
    rw [answer_nil, answer_nil]
  | cons slot rest ihr ihc =>
    intro excluded excluded' h
    have hrest : ∀ s ∈ rest, ∀ c ∈ s.candidates, ∀ id ∈ c.ids,
        (id ∈ excluded ↔ id ∈ excluded') := fun s hs => h s (List.mem_cons_of_mem _ hs)
    have hbelow : ∀ c ∈ slot.candidates, ∀ id ∈ c.ids, (id ∈ excluded ↔ id ∈ excluded') :=
      h slot List.mem_cons_self
    rw [answer_cons, answer_cons, ihr hrest]
    refine answerAmong_congr _ _ (fun c hc => hbelow c hc _ c.id_mem_ids) fun c hc => ?_
    have hslots : ∀ s ∈ c.slots, ∀ d ∈ s.candidates, ∀ id ∈ d.ids,
        (id ∈ excluded ↔ id ∈ excluded') := fun s hs d hd id hid =>
      hbelow c hc id (Part.mem_ids_of_candidate hs hd hid)
    by_cases hfree : c.conflictFree m = true
    · rw [answerChoice_of_free hfree, answerChoice_of_free hfree, (ihc c hc).1 hslots, ihr hrest]
    · rw [answerChoice_of_not_free hfree, answerChoice_of_not_free hfree, (ihc c hc).2]
      intro s hs d hd id hid
      rw [NameSet.mem_insertAll, NameSet.mem_insertAll]
      apply or_congr _ Iff.rfl
      rcases List.mem_append.mp hs with hs | hs
      · exact hrest s hs d hd id hid
      · exact hslots s hs d hd id hid

/-! ### Answers are feasible -/

/-- **Answers are sound**: an answer records a way to fill the slots with items that may be chosen
together. -/
theorem answer_sound (hm : m.Mutual) (stat : Stat) (slots : List Slot) : m.Covers slots →
    ∀ excluded, ∃ ds, Fills slots ds ∧ Allowed m excluded (ids ds) ∧
      (answer m stat slots excluded).Records ds := by
  induction slots using Slot.induct_work with
  | nil =>
    intro _ excluded
    rw [answer_nil]
    exact ⟨[], Fills.nil, allowed_nil, Solution.records_empty⟩
  | cons slot rest ihr ihc =>
    intro hcov excluded
    obtain ⟨ds, hds, hallow, hrec⟩ := ihr hcov.tail excluded
    rw [answer_cons]
    rcases answerAmong_mem slot.candidates
      (.prepend (slot.select none) 0 [answer m stat rest excluded]) with h | ⟨c, hc, hex, h⟩
    · rw [h]
      exact ⟨_, Fills.skip hds, hallow, hrec.prepend_none⟩
    rw [h]
    by_cases hfree : c.conflictFree m = true
    · -- The slots below `c` and the others are filled apart.
      obtain ⟨es, hes, hallow', hrec'⟩ := (ihc c hc).1 (hcov.below hc) excluded
      rw [answerChoice_of_free hfree]
      refine ⟨⟨slot, some c⟩ :: (es ++ ds), Fills.mount hc (hes.append hds), ?_,
        hrec'.prepend_withOwn hrec⟩
      rw [ids_cons_some, ids_append]
      exact Allowed.mount_of_free hm hfree hex (hcov slot List.mem_cons_self c hc)
        (fun _ hid => hes.ids_subset hid) hallow' hallow
        fun _ hid => hcov.tail.mem_candidates hds hid
    · -- The slots below `c` join the others, and its conflicts join the exclusions.
      obtain ⟨es, hes, hallow', hrec'⟩ := (ihc c hc).2 (hcov.tail.append (hcov.below hc))
        (excluded.insertAll (m.conflictsOf c.id).toList)
      obtain ⟨fs, hperm, hfs⟩ := hes.append_comm
      rw [answerChoice_of_not_free hfree]
      refine ⟨⟨slot, some c⟩ :: fs, Fills.mount hc hfs, ?_, (hrec'.of_perm hperm).prepend_some⟩
      exact (allowed_cons_iff hm).mpr ⟨hex, hallow'.subset (perm_ids hperm).subset⟩

/-! ### Answers are optimal -/

/-- **Answers are optimal**: no way to fill the slots with items that may be chosen together is
better. -/
theorem answer_optimal (hm : m.Mutual) (slots : List Slot) : ∀ {excluded : NameSet}
    {ds : List Decision}, Fills slots ds → Allowed m excluded (ids ds) →
    Totals.AtLeast stat (answer m stat slots excluded).sums (sums ds) := by
  induction slots using Slot.induct_work with
  | nil =>
    intro excluded ds hds _
    rw [fills_nil_iff.mp hds, answer_nil]
    exact Totals.AtLeast.refl _ _
  | cons slot rest ihr ihc =>
    intro excluded ds hds hallow
    rw [answer_cons]
    rcases fills_cons_iff.mp hds with ⟨es, rfl, hes⟩ | ⟨c, hc, es, rfl, hes⟩
    · refine (answerAmong_atLeast_best _ _).trans ?_
      rw [Solution.sums_prepend_one, zero_add, sums_cons_none]
      exact ihr hes hallow
    · obtain ⟨hex, hallow'⟩ := (allowed_cons_iff hm).mp hallow
      refine (answerAmong_atLeast_choice _ _ hc hex).trans ?_
      rw [sums_cons_some]
      obtain ⟨d, e, rfl, hd, he⟩ := fills_append_iff.mp hes
      by_cases hfree : c.conflictFree m = true
      · -- Solved apart: what is mounted below `c` and what is mounted elsewhere are bounded apart.
        have hsub : ids (d ++ e) ⊆ ids (⟨slot, some c⟩ :: (d ++ e)) := List.subset_cons_self _ _
        rw [ids_append] at hsub
        rw [answerChoice_of_free hfree, Solution.sums_prepend_withOwn, sums_append, ← add_assoc]
        refine Totals.AtLeast.add (Totals.AtLeast.add (Totals.AtLeast.refl _ _) ?_) ?_
        · exact (ihc c hc).1 hd (hallow.subset fun id hid => hsub (List.mem_append_left _ hid))
        · exact ihr he (hallow.subset fun id hid => hsub (List.mem_append_right _ hid))
      · -- Solved together: the slots below `c` come last, so the decisions are put in that order.
        rw [answerChoice_of_not_free hfree, Solution.sums_prepend_one, sums_append,
          add_comm (sums d), ← sums_append]
        refine Totals.AtLeast.add (Totals.AtLeast.refl _ _) ?_
        refine (ihc c hc).2 (he.append hd) (hallow'.subset (perm_ids ?_).subset)
        exact List.perm_append_comm

end Answer

end Gunsmith
