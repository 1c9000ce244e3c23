/-
  Every sub-problem is solved once.

  A call of the search makes further calls, one for each way to go on (`SearchCall.nested`).
  These have less to decide, counted in the slots of the trees at the open slots, although the
  list of open slots may be longer (`SearchCall.size_lt_of_mem_nested`).  So calls are not nested
  deeper than there are slots.

  A call with something to decide looks its sub-problem up, and makes its nested calls only if
  nothing is found: then it is an expansion (`Lookup.expansions`).  What some steps of a search
  have made is said once, for any steps (`Made`): which calls, which expansions, and what has
  become known by them.  What is known stays known, and what a nested call meets has less to
  decide, so nothing is expanded twice, neither afterwards nor meanwhile.
-/
import Gunsmith.Proofs.Search.Numbered
import Gunsmith.Proofs.Search.Plain
import Mathlib.Data.Set.Card
import Mathlib.Logic.Relation

namespace Gunsmith

/-! ### Nested calls -/

namespace SearchCall

variable {m : ConflictMap} {root : Part} {call sub : SearchCall}

/-- The number of slots in the trees at the slots to decide. -/
def size (call : SearchCall) : Nat := Slot.totalCount call.slots

/-- There is a slot to decide. -/
def Open (call : SearchCall) : Prop := call.slots ≠ []

instance : DecidablePred Open := fun call => inferInstanceAs (Decidable (call.slots ≠ []))

/-- The calls made once a candidate is put into the slot before some others. -/
def afterChoice (m : ConflictMap) (rest : List Slot) (excluded : NameSet) (c : Part) :
    List SearchCall :=
  if c.conflictFree m then
    [⟨c.slots, excluded⟩, ⟨rest, excluded⟩]
  else
    [⟨rest ++ c.slots, excluded.insertAll (m.conflictsOf c.id).toList⟩]

/-- The calls made to solve the sub-problem of a call, in order. -/
def nested (m : ConflictMap) : SearchCall → List SearchCall
  | ⟨[], _⟩ => []
  | ⟨slot :: rest, excluded⟩ =>
    ⟨rest, excluded⟩ :: (slot.available excluded).flatMap (afterChoice m rest excluded)

/-- The slots of a nested call: the rest, the slots below a candidate, or both. -/
theorem slots_of_mem_nested {slot : Slot} {rest : List Slot} {excluded : NameSet}
    (h : sub ∈ nested m ⟨slot :: rest, excluded⟩) : sub.slots = rest ∨
      ∃ c ∈ slot.candidates, sub.slots = c.slots ∨ sub.slots = rest ++ c.slots := by
  rcases List.mem_cons.mp h with rfl | h
  · exact Or.inl rfl
  obtain ⟨c, hc, h⟩ := List.mem_flatMap.mp h
  obtain ⟨hc, -⟩ := Slot.mem_available.mp hc
  unfold afterChoice at h
  split_ifs at h
  · rcases List.mem_pair.mp h with rfl | rfl
    · exact Or.inr ⟨c, hc, Or.inl rfl⟩
    · exact Or.inl rfl
  · rw [List.mem_singleton.mp h]
    exact Or.inr ⟨c, hc, Or.inr rfl⟩

/-- Only a call with something to decide makes further ones. -/
theorem open_of_mem_nested (h : sub ∈ call.nested m) : call.Open := by
  obtain ⟨_ | ⟨slot, rest⟩, excluded⟩ := call
  · exact absurd h List.not_mem_nil
  · exact List.cons_ne_nil slot rest

/-- **Nested calls have less to decide.** -/
theorem size_lt_of_mem_nested (h : sub ∈ call.nested m) : sub.size < call.size := by
  obtain ⟨_ | ⟨slot, rest⟩, excluded⟩ := call
  · exact absurd h List.not_mem_nil
  unfold size
  rw [Slot.totalCount_cons, Slot.slotCount_eq]
  rcases slots_of_mem_nested h with hs | ⟨c, hc, hs⟩
  · rw [hs]
    omega
  · have hle := Part.slotCount_le_of_mem hc
    rw [Part.slotCount_eq] at hle
    rcases hs with hs | hs
    · rw [hs]
      omega
    · rw [hs, Slot.totalCount_append]
      omega

theorem slots_subset_of_mem_nested (hs : call.slots ⊆ root.allSlots) (h : sub ∈ call.nested m) :
    sub.slots ⊆ root.allSlots := by
  obtain ⟨_ | ⟨slot, rest⟩, excluded⟩ := call
  · exact absurd h List.not_mem_nil
  obtain ⟨hslot, hrest⟩ := List.cons_subset.mp hs
  rcases slots_of_mem_nested h with hsub | ⟨c, hc, hsub⟩
  · rw [hsub]
    exact hrest
  · have hbelow : c.slots ⊆ root.allSlots := fun s hsc =>
      Part.mem_allSlots_of_candidate hslot hc (Part.mem_allSlots_of_mem_slots hsc)
    rcases hsub with hsub | hsub
    · rw [hsub]
      exact hbelow
    · rw [hsub]
      exact List.append_subset.mpr ⟨hrest, hbelow⟩

/-- A call leads to another one through nested calls, or is the call itself. -/
def Reaches (m : ConflictMap) : SearchCall → SearchCall → Prop :=
  Relation.ReflTransGen fun call sub => sub ∈ call.nested m

theorem Reaches.size_le (h : call.Reaches m sub) : sub.size ≤ call.size := by
  induction h with
  | refl => exact Nat.le_refl _
  | tail _ hmem ih => exact (size_lt_of_mem_nested hmem).le.trans ih

theorem Reaches.slots_subset (h : call.Reaches m sub) (hs : call.slots ⊆ root.allSlots) :
    sub.slots ⊆ root.allSlots := by
  induction h with
  | refl => exact hs
  | tail _ hmem ih => exact slots_subset_of_mem_nested ih hmem

/-- In a tree, calls with one sub-problem are one call. -/
theorem eq_of_subproblem_eq (hd : root.DistinctAddresses) (hcall : call.slots ⊆ root.allSlots)
    (hsub : sub.slots ⊆ root.allSlots) (h : call.subproblem = sub.subproblem) : call = sub := by
  obtain ⟨slots, excluded⟩ := call
  obtain ⟨slots', excluded'⟩ := sub
  obtain ⟨rfl, rfl⟩ := (Subproblem.of_inj hd hcall hsub).mp h
  rfl

end SearchCall

/-! ### Expansions -/

/-- The calls among some lookups that found nothing, and made their nested calls. -/
def Lookup.expansions (ls : List Lookup) : List SearchCall :=
  (ls.filter fun l => l.found.isNone).map Lookup.call

open Lookup SearchCall

section Made

variable {σ : Type} {m : ConflictMap} {root : Part} {calls calls' : List SearchCall}
  {call : SearchCall} {s s' s'' : Progress σ} {ls ls' : List Lookup} {k : Ticket}
  {solution : Solution}

theorem expansions_append : expansions (ls ++ ls') = expansions ls ++ expansions ls' := by
  simp [expansions]

theorem mem_lookups_of_mem_expansions (h : call ∈ expansions ls) :
    ∃ l ∈ ls, l.call = call := by
  obtain ⟨l, hl, rfl⟩ := List.mem_map.mp h
  exact ⟨l, List.mem_of_mem_filter hl, rfl⟩

/-- The steps of a search have made some calls, with these lookups, the nested ones included. -/
structure Made (m : ConflictMap) (calls : List SearchCall) (s s' : Progress σ)
    (ls : List Lookup) : Prop where
  /-- What was looked up are the calls with something to decide, and those that the expansions
  have made. -/
  perm : (ls.map Lookup.call).Perm (calls.filter (fun c => decide c.Open) ++
    (expansions ls).flatMap fun c => (c.nested m).filter fun c => decide c.Open)
  reached : ∀ l ∈ ls, ∃ call ∈ calls, call.Reaches m l.call
  visited : s'.stats.visited = s.stats.visited + (expansions ls).length
  counted : s'.stats.visited + s'.stats.memoHits =
    s.stats.visited + s.stats.memoHits + ls.length
  /-- Nothing is expanded that was known, and nothing twice. -/
  fresh : ∀ call ∈ expansions ls, s.memo[call.subproblem]? = none
  nodup : (expansions ls).Nodup
  kept : ∀ (p : Subproblem) solution, s.memo[p]? = some solution → s'.memo[p]? = some solution
  entered : ∀ (p : Subproblem) solution, s'.memo[p]? = some solution →
    s.memo[p]? = some solution ∨ ∃ call ∈ expansions ls, call.subproblem = p
  /-- What a lookup found is what is known afterwards. -/
  met : ∀ l ∈ ls, ∃ solution, s'.memo[l.call.subproblem]? = some solution ∧
    ∀ found, l.found = some found → found = solution

namespace Made

/-- Calls with nothing to decide do nothing. -/
theorem idle (h : ∀ call ∈ calls, ¬ call.Open) : Made m calls s s [] where
  perm := by
    have hnil : calls.filter (fun c => decide c.Open) = [] :=
      List.filter_eq_nil_iff.mpr fun c hc => by
        rw [decide_eq_true_eq]
        exact h c hc
    rw [hnil]
    exact List.Perm.nil
  reached _ hl := absurd hl List.not_mem_nil
  visited := rfl
  counted := rfl
  fresh _ hl := absurd hl List.not_mem_nil
  nodup := List.nodup_nil
  kept _ _ h := h
  entered _ _ h := Or.inl h
  met _ hl := absurd hl List.not_mem_nil

/-- Some calls after others. -/
theorem append (h : Made m calls s s' ls) (h' : Made m calls' s' s'' ls') :
    Made m (calls ++ calls') s s'' (ls ++ ls') where
  perm := by
    rw [List.map_append, List.filter_append, expansions_append, List.flatMap_append]
    refine (h.perm.append h'.perm).trans ?_
    rw [List.append_assoc, List.append_assoc]
    exact (List.perm_append_comm_assoc _ _ _).append_left _
  reached l hl := by
    rcases List.mem_append.mp hl with hl | hl
    · obtain ⟨call, hcall, hr⟩ := h.reached l hl
      exact ⟨call, List.mem_append_left _ hcall, hr⟩
    · obtain ⟨call, hcall, hr⟩ := h'.reached l hl
      exact ⟨call, List.mem_append_right _ hcall, hr⟩
  visited := by
    rw [h'.visited, h.visited, expansions_append, List.length_append, Nat.add_assoc]
  counted := by
    rw [h'.counted, h.counted, List.length_append, Nat.add_assoc]
  fresh call hcall := by
    rw [expansions_append] at hcall
    rcases List.mem_append.mp hcall with hcall | hcall
    · exact h.fresh call hcall
    · have hnone := h'.fresh call hcall
      cases hs : s.memo[call.subproblem]? with
      | none => rfl
      | some solution => rw [h.kept _ _ hs] at hnone; cases hnone
  nodup := by
    rw [expansions_append]
    refine h.nodup.append h'.nodup fun call hcall hcall' => ?_
    -- What the ones have expanded is known to the others.
    obtain ⟨l, hl, rfl⟩ := mem_lookups_of_mem_expansions hcall
    obtain ⟨solution, hsol, -⟩ := h.met l hl
    rw [h'.fresh _ hcall'] at hsol
    cases hsol
  kept p solution hp := h'.kept p solution (h.kept p solution hp)
  entered p solution hp := by
    rw [expansions_append]
    rcases h'.entered p solution hp with hp | ⟨call, hcall, rfl⟩
    · rcases h.entered p solution hp with hp | ⟨call, hcall, rfl⟩
      · exact Or.inl hp
      · exact Or.inr ⟨call, List.mem_append_left _ hcall, rfl⟩
    · exact Or.inr ⟨call, List.mem_append_right _ hcall, rfl⟩
  met l hl := by
    rcases List.mem_append.mp hl with hl | hl
    · obtain ⟨solution, hsol, hfound⟩ := h.met l hl
      exact ⟨solution, h'.kept _ _ hsol, hfound⟩
    · exact h'.met l hl

/-- A call whose sub-problem is known. -/
theorem hit (hopen : call.Open) (hknown : s.memo[call.subproblem]? = some solution) :
    Made m [call] s
      { s with stats := { s.stats with memoHits := s.stats.memoHits + 1 } }
      [⟨call, k, some solution⟩] where
  perm := by
    rw [List.filter_singleton, decide_eq_true hopen]
    exact List.Perm.refl _
  reached l hl := by
    rw [List.mem_singleton.mp hl]
    exact ⟨call, List.mem_singleton_self _, Relation.ReflTransGen.refl⟩
  visited := rfl
  counted := rfl
  fresh _ hl := absurd hl List.not_mem_nil
  nodup := List.nodup_nil
  kept _ _ h := h
  entered _ _ h := Or.inl h
  met l hl := by
    rw [List.mem_singleton.mp hl]
    exact ⟨solution, hknown, fun found h => (Option.some.inj h).symm⟩

/-- A call whose sub-problem is not known: it is expanded, and its solution is entered. -/
theorem expand (hd : root.DistinctAddresses) (hs : call.slots ⊆ root.allSlots)
    (hopen : call.Open) (hnew : s.memo[call.subproblem]? = none)
    (h : Made m (call.nested m)
      { s with stats := { s.stats with visited := s.stats.visited + 1 } } s' ls) :
    Made m [call] s { s' with memo := s'.memo.insert call.subproblem solution }
      (⟨call, k, none⟩ :: ls) := by
  have hexp : expansions (⟨call, k, none⟩ :: ls) = call :: expansions ls := rfl
  -- Calls met on the way have less to decide, so their sub-problems are other ones.
  have hreached : ∀ l ∈ ls, call.Reaches m l.call ∧ l.call.size < call.size := by
    intro l hl
    obtain ⟨sub, hsub, hr⟩ := h.reached l hl
    exact ⟨Relation.ReflTransGen.head hsub hr,
      hr.size_le.trans_lt (size_lt_of_mem_nested hsub)⟩
  have hother : ∀ l ∈ ls, call.subproblem ≠ l.call.subproblem := by
    intro l hl heq
    obtain ⟨hr, hlt⟩ := hreached l hl
    have hcall := eq_of_subproblem_eq hd hs (hr.slots_subset hs) heq
    exact absurd hlt (hcall ▸ Nat.lt_irrefl _)
  have hinsert : ∀ p : Subproblem, call.subproblem ≠ p →
      (s'.memo.insert call.subproblem solution)[p]? = s'.memo[p]? := by
    intro p hp
    rw [Std.TreeMap.getElem?_insert, if_neg (mt Std.LawfulEqCmp.eq_of_compare hp)]
  have hself : (s'.memo.insert call.subproblem solution)[call.subproblem]? = some solution :=
    Std.TreeMap.getElem?_insert_self
  constructor
  case perm =>
    rw [hexp, List.filter_singleton, decide_eq_true hopen, List.map_cons, List.flatMap_cons]
    exact h.perm.cons call
  case reached =>
    intro l hl
    refine ⟨call, List.mem_singleton_self _, ?_⟩
    rcases List.mem_cons.mp hl with rfl | hl
    · exact Relation.ReflTransGen.refl
    · exact (hreached l hl).1
  case visited =>
    have hvisited := h.visited
    rw [hexp, List.length_cons]
    dsimp only at hvisited ⊢
    omega
  case counted =>
    have hcounted := h.counted
    rw [List.length_cons]
    dsimp only at hcounted ⊢
    omega
  case fresh =>
    intro c hc
    rw [hexp] at hc
    rcases List.mem_cons.mp hc with rfl | hc
    · exact hnew
    · exact h.fresh c hc
  case nodup =>
    rw [hexp, List.nodup_cons]
    refine ⟨fun hmem => ?_, h.nodup⟩
    obtain ⟨l, hl, heq⟩ := mem_lookups_of_mem_expansions hmem
    exact hother l hl (congrArg subproblem heq.symm)
  case kept =>
    intro p sol hp
    have hne : call.subproblem ≠ p := by
      rintro rfl
      rw [hnew] at hp
      cases hp
    rw [hinsert p hne]
    exact h.kept p sol hp
  case entered =>
    intro p sol hp
    rw [hexp]
    by_cases hne : call.subproblem = p
    · exact Or.inr ⟨call, List.mem_cons_self, hne⟩
    · rw [hinsert p hne] at hp
      rcases h.entered p sol hp with hp | ⟨c, hc, heq⟩
      · exact Or.inl hp
      · exact Or.inr ⟨c, List.mem_cons_of_mem _ hc, heq⟩
  case met =>
    intro l hl
    rcases List.mem_cons.mp hl with rfl | hl
    · exact ⟨solution, hself, nofun⟩
    · rw [hinsert _ (hother l hl)]
      exact h.met l hl

/-! ### From an empty table -/

section Start

variable {first : SearchCall} (hd : root.DistinctAddresses) (hs : first.slots ⊆ root.allSlots)
  (hempty : ∀ p : Subproblem, s.memo[p]? = none)

include hs in
theorem slots_subset (h : Made m [first] s s' ls) {l : Lookup} (hl : l ∈ ls) :
    l.call.slots ⊆ root.allSlots := by
  obtain ⟨call, hcall, hr⟩ := h.reached l hl
  rw [List.mem_singleton.mp hcall] at hr
  exact hr.slots_subset hs

include hd hs hempty

/-- What was looked up was expanded at some time. -/
theorem call_mem_expansions (h : Made m [first] s s' ls) {l : Lookup} (hl : l ∈ ls) :
    l.call ∈ expansions ls := by
  obtain ⟨solution, hsol, -⟩ := h.met l hl
  rcases h.entered _ _ hsol with hold | ⟨call, hcall, heq⟩
  · rw [hempty] at hold
    cases hold
  · obtain ⟨l', hl', rfl⟩ := mem_lookups_of_mem_expansions hcall
    rw [← eq_of_subproblem_eq hd (h.slots_subset hs hl') (h.slots_subset hs hl) heq]
    exact hcall

/-- **Expanded is what the first call leads to**, as far as there is something to decide. -/
theorem mem_expansions_iff (h : Made m [first] s s' ls) :
    call ∈ expansions ls ↔ first.Reaches m call ∧ call.Open := by
  have hmem : ∀ c, c ∈ ls.map Lookup.call ↔
      (c = first ∨ ∃ d ∈ expansions ls, c ∈ d.nested m) ∧ c.Open := by
    intro c
    rw [h.perm.mem_iff]
    simp only [List.mem_append, List.mem_flatMap, List.mem_filter, List.mem_singleton,
      decide_eq_true_eq]
    tauto
  have hexpanded : ∀ c ∈ ls.map Lookup.call, c ∈ expansions ls := by
    intro c hc
    obtain ⟨l, hl, rfl⟩ := List.mem_map.mp hc
    exact h.call_mem_expansions hd hs hempty hl
  constructor
  · intro hcall
    obtain ⟨l, hl, rfl⟩ := mem_lookups_of_mem_expansions hcall
    obtain ⟨c, hc, hr⟩ := h.reached l hl
    rw [List.mem_singleton.mp hc] at hr
    exact ⟨hr, ((hmem l.call).mp (List.mem_map_of_mem hl)).2⟩
  · rintro ⟨hr, hopen⟩
    -- A call on the way has nested calls, so it has something to decide and was expanded.
    induction hr with
    | refl => exact hexpanded _ ((hmem _).mpr ⟨Or.inl rfl, hopen⟩)
    | tail _ hsub ih =>
      exact hexpanded _ ((hmem _).mpr ⟨Or.inr ⟨_, ih (open_of_mem_nested hsub), hsub⟩, hopen⟩)

end Start

end Made

end Made

end Gunsmith
