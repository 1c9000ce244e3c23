/-
  The finished record is the symmetric closure of what was declared.

  Declarations and candidates are recorded by calls that come in any order, repeat one
  another, name an item itself or name nothing.  What is in conflict in the end is read off the
  calls alone (`Declarations.conflicts_finished_iff`): two different items, one of which some
  call declares for the other.

  The record keeps no entry without conflicts (`Edges.Full`), through every call and through the
  mirroring at the end.  A record of this kind is determined by its conflicts
  (`Edges.toList_congr`), so the order of the calls leaves no trace.  Each entry stands for as
  many ordered pairs as it has members, and no pair belongs to two entries, so adding up the
  sizes counts the pairs in conflict (`ConflictMap.encard_conflicts`).
-/
import Gunsmith.Proofs.Conflict
import Mathlib.Data.Set.Card

namespace Gunsmith

/-! ### Records without empty entries -/

namespace Edges

variable {edges edges' : Edges}

/-- Every entry has a conflict. -/
def Full (edges : Edges) : Prop :=
  ∀ (a : String) (others : NameSet), edges[a]? = some others → others ≠ ∅

theorem full_empty : Full ∅ := by
  intro a others h
  rw [Std.TreeMap.getElem?_emptyc] at h
  cases h

theorem Full.add (h : edges.Full) (a : String) (others : List String) :
    (edges.add a others).Full := by
  intro c found hfound
  unfold Edges.add at hfound
  dsimp only at hfound
  split_ifs at hfound with hempty
  · exact h c found hfound
  · rw [Std.TreeMap.getElem?_insert] at hfound
    split_ifs at hfound with hac
    · rintro rfl
      exact hempty (congrArg NameSet.isEmpty (Option.some.inj hfound))
    · exact h c found hfound

theorem Full.foldl {α : Type} {f : Edges → α → Edges}
    (hf : ∀ edges x, edges.Full → (f edges x).Full) (h : edges.Full) (xs : List α) :
    (xs.foldl f edges).Full := by
  induction xs generalizing edges with
  | nil => exact h
  | cons x xs ih => exact ih (hf edges x h)

/-- In a record without empty entries an item has an entry if it has a conflict. -/
theorem Full.getElem?_eq (h : edges.Full) (a : String) :
    edges[a]? = if edges.of a = ∅ then none else some (edges.of a) := by
  unfold Edges.of
  rw [Std.TreeMap.getD_eq_getD_getElem?]
  cases hget : edges[a]? with
  | none => simp
  | some others =>
    rw [Option.getD_some, if_neg (h a others hget)]

/-- A record without empty entries is determined by its conflicts. -/
theorem toList_congr (h : edges.Full) (h' : edges'.Full) (hsame : ∀ a, edges.of a = edges'.of a) :
    edges.toList = edges'.toList := by
  have hequiv : edges.Equiv edges' := by
    apply Std.TreeMap.Equiv.of_forall_constGet?_eq
    intro a
    have hget : edges[a]? = edges'[a]? := by rw [h.getElem?_eq, h'.getElem?_eq, hsame]
    exact hget
  exact hequiv.toList_eq

/-- The ordered pairs in conflict, entry by entry. -/
def pairs (edges : Edges) : List (String × String) :=
  edges.toList.flatMap fun (a, others) => others.toList.map fun b => (a, b)

theorem mem_pairs {a b : String} : (a, b) ∈ edges.pairs ↔ b ∈ edges.of a := by
  rw [mem_of_iff]
  simp only [pairs, List.mem_flatMap, List.mem_map, Prod.mk.injEq, Prod.exists]
  constructor
  · rintro ⟨_, others, hentry, _, hb, rfl, rfl⟩
    exact ⟨others, hentry, hb⟩
  · rintro ⟨others, hentry, hb⟩
    exact ⟨a, others, hentry, b, hb, rfl, rfl⟩

theorem nodup_pairs (edges : Edges) : edges.pairs.Nodup := by
  unfold pairs
  rw [List.nodup_flatMap]
  constructor
  · rintro ⟨a, others⟩ -
    have hnodup : others.names.Nodup := others.ascending.imp String.ne_of_lt
    exact hnodup.map fun b b' heq => congrArg Prod.snd heq
  · -- Pairs from different entries differ in their first member.
    apply Std.TreeMap.distinct_keys_toList.imp
    rintro ⟨a, others⟩ ⟨a', others'⟩ hne p hp hp'
    obtain ⟨b, -, rfl⟩ := List.mem_map.mp hp
    obtain ⟨b', -, heq⟩ := List.mem_map.mp hp'
    exact hne (Std.LawfulEqOrd.compare_eq_iff_eq.mpr (congrArg Prod.fst heq).symm)

end Edges

namespace ConflictMap

variable {m : ConflictMap}

/-- **The number of edges** is the number of ordered pairs in conflict. -/
theorem encard_conflicts (m : ConflictMap) :
    {p : String × String | m.Conflicts p.1 p.2}.encard = m.edgeCount := by
  have hset : {p : String × String | m.Conflicts p.1 p.2} = ↑m.edges.pairs.toFinset := by
    ext ⟨a, b⟩
    rw [List.coe_toFinset]
    exact Edges.mem_pairs.symm
  have hlength : m.edges.pairs.length = m.edgeCount := by
    unfold Edges.pairs edgeCount
    rw [length_flatMap_eq_total]
    simp only [List.length_map, NameSet.size, NameSet.toList]
  rw [hset, Set.encard_coe_eq_coe_finsetCard, List.toFinset_card_of_nodup (Edges.nodup_pairs _),
    hlength]

theorem isSymmetric_iff : m.isSymmetric = true ↔ ∀ a b, m.Conflicts a b → m.Conflicts b a := by
  simp only [isSymmetric, List.all_eq_true, decide_eq_true_eq, Prod.forall]
  constructor
  · intro hall a b hab
    obtain ⟨others, hentry, hb⟩ := Edges.mem_of_iff.mp hab
    exact hall a others hentry b hb
  · exact fun hsymm a others hentry b hb => hsymm a b (Edges.mem_of_iff.mpr ⟨others, hentry, hb⟩)

end ConflictMap

/-! ### The closure -/

namespace Declarations

variable {calls calls' : List DeclarationCall} {a b : String}

/-- The finished record of some calls. -/
def finished (calls : List DeclarationCall) : ConflictMap :=
  (calls.foldl call empty).symmetric

theorem conflicts_finished_iff :
    (finished calls).Conflicts a b ↔ a ≠ b ∧ (Declares calls a b ∨ Declares calls b a) := by
  show b ∈ (finished calls).conflictsOf a ↔ _
  rw [finished, mem_conflictsOf_symmetric, mem_declared_calls, mem_declared_calls]
  have hnone : ∀ {a b}, ¬ b ∈ empty.declared.of a := Edges.not_mem_of_empty
  simp only [hnone, false_or]
  tauto

theorem mem_candidates_finished : a ∈ (finished calls).candidates ↔ .candidate a ∈ calls := by
  have hnone : ¬ a ∈ empty.candidates := NameSet.not_mem_empty a
  rw [finished, candidates_symmetric, mem_candidates_calls]
  simp [hnone]

theorem full_call {d : Declarations} (h : d.declared.Full) (c : DeclarationCall) :
    (d.call c).declared.Full := by
  cases c with
  | conflicts id others => exact h.add id _
  | candidate id => exact h

/-- No entry of a finished record is empty. -/
theorem full_finished : (finished calls).edges.Full := by
  have hcalls : ∀ {d : Declarations}, d.declared.Full → (calls.foldl call d).declared.Full := by
    induction calls with
    | nil => exact id
    | cons c cs ih => exact fun h => ih (full_call h c)
  -- The mirrored conflicts are added to entries one by one.
  refine Edges.Full.foldl (fun edges entry h => ?_) (hcalls Edges.full_empty) _
  exact Edges.Full.foldl (fun edges b h => h.add b _) h _

/-- A conflict is live if the other item was added as a candidate. -/
theorem live_finished_iff : (finished calls).Live a ↔
    ∃ b, (a ≠ b ∧ (Declares calls a b ∨ Declares calls b a)) ∧ .candidate b ∈ calls := by
  apply exists_congr
  intro b
  rw [mem_candidates_finished, ← conflicts_finished_iff]
  exact Iff.rfl

/-- Both lists of calls declare the same conflicts and add the same candidates. -/
structure Alike (calls calls' : List DeclarationCall) : Prop where
  declares : ∀ a b, Declares calls a b ↔ Declares calls' a b
  candidate : ∀ a, .candidate a ∈ calls ↔ .candidate a ∈ calls'

namespace Alike

theorem refl (calls : List DeclarationCall) : Alike calls calls :=
  ⟨fun _ _ => Iff.rfl, fun _ => Iff.rfl⟩

theorem of_mem_iff (h : ∀ c, c ∈ calls ↔ c ∈ calls') : Alike calls calls' where
  declares a b := by simp [Declares, h]
  candidate a := h _

theorem append {more more' : List DeclarationCall} (h : Alike calls calls')
    (hmore : Alike more more') : Alike (calls ++ more) (calls' ++ more') where
  declares a b := by
    have hsplit : ∀ calls more : List DeclarationCall, Declares (calls ++ more) a b ↔
        Declares calls a b ∨ Declares more a b := fun calls more => by
      simp [Declares, or_and_right, exists_or]
    rw [hsplit, hsplit, h.declares, hmore.declares]
  candidate a := by rw [List.mem_append, List.mem_append, h.candidate, hmore.candidate]

/-- What is recorded does not depend on the order of the calls. -/
theorem toList_edges_finished (h : Alike calls calls') :
    (finished calls).edges.toList = (finished calls').edges.toList := by
  apply Edges.toList_congr full_finished full_finished
  intro a
  apply NameSet.ext_mem
  intro b
  have hsame : (finished calls).Conflicts a b ↔ (finished calls').Conflicts a b := by
    rw [conflicts_finished_iff, conflicts_finished_iff, h.declares, h.declares]
  exact hsame

theorem candidates_finished (h : Alike calls calls') :
    (finished calls).candidates = (finished calls').candidates := by
  apply NameSet.ext_mem
  intro a
  rw [mem_candidates_finished, mem_candidates_finished, h.candidate]

theorem live_finished (h : Alike calls calls') :
    (finished calls).Live a ↔ (finished calls').Live a := by
  simp only [live_finished_iff, h.declares, h.candidate]

end Alike

/-- The finished record of some calls says exactly what they declare, in both directions. -/
structure SymmetricClosure (calls : List DeclarationCall) : Prop where
  conflicts : ∀ a b, (finished calls).Conflicts a b ↔
    a ≠ b ∧ (Declares calls a b ∨ Declares calls b a)
  /-- The conflicts of an item are listed in ascending order. -/
  listed : ∀ a, ((finished calls).conflictsOf a).toList.Pairwise (· < ·) ∧
    ∀ b, b ∈ ((finished calls).conflictsOf a).toList ↔
      a ≠ b ∧ (Declares calls a b ∨ Declares calls b a)
  symmetric : (finished calls).isSymmetric = true
  /-- A conflict is live if the other item was added as a candidate. -/
  live : ∀ a, (finished calls).Live a ↔
    ∃ b, (a ≠ b ∧ (Declares calls a b ∨ Declares calls b a)) ∧ .candidate b ∈ calls
  /-- The number of edges is the number of ordered pairs in conflict. -/
  edgeCount : {p : String × String | (finished calls).Conflicts p.1 p.2}.encard =
    (finished calls).edgeCount
  /-- The same calls in another order leave the same record. -/
  reordered : ∀ calls', calls.Perm calls' →
    (finished calls).edges.toList = (finished calls').edges.toList ∧
      (finished calls).candidates = (finished calls').candidates

/-- **The finished record is the symmetric closure of the declarations**, whatever is declared and
in whatever order. -/
theorem symmetricClosure (calls : List DeclarationCall) : SymmetricClosure calls where
  conflicts _ _ := conflicts_finished_iff
  listed a := ⟨((finished calls).conflictsOf a).ascending, fun _ => conflicts_finished_iff⟩
  symmetric := ConflictMap.isSymmetric_iff.mpr fun _ _ => symmetric_comm.mp
  live _ := live_finished_iff
  edgeCount := (finished calls).encard_conflicts
  reordered calls' hperm := by
    have halike : Alike calls calls' := .of_mem_iff fun c => hperm.mem_iff
    exact ⟨halike.toList_edges_finished, halike.candidates_finished⟩

/-- What an item declares of itself is left out, and what it declares twice counts once. -/
example :
    (finished [.conflicts "a" ["a", "b"], .candidate "b", .conflicts "a" ["b"]]).edgeCount = 2 := by
  cbv

end Declarations

end Gunsmith
