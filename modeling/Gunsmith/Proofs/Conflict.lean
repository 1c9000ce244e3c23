/-
  Conflicts hold both ways.

  Declarations are collected one by one, and a finished record is made symmetric.  Its
  conflicts are exactly the declared ones read in either direction
  (`Declarations.mem_conflictsOf_symmetric`), so a finished record is symmetric
  (`Declarations.symmetric_comm`).  For the record of a tree this means: two items are in
  conflict if they differ and one of them declares the other somewhere below the top
  (`Part.conflicts_iff`).
-/
import Gunsmith.Proofs.Tree.Listing
import Mathlib.Tactic.SplitIfs
import Mathlib.Tactic.Tauto

namespace Gunsmith

namespace Edges

variable {edges : Edges} {a b c : String}

@[simp]
theorem not_mem_of_empty : ¬ b ∈ Edges.of ∅ a := by
  unfold Edges.of
  rw [Std.TreeMap.getD_emptyc]
  exact NameSet.not_mem_empty b

theorem of_add (edges : Edges) (a : String) (others : List String) (c : String) :
    (edges.add a others).of c = if c = a then (edges.of a).insertAll others else edges.of c := by
  unfold Edges.add
  dsimp only
  split_ifs with hempty hca hca
  · -- Nothing is recorded, and nothing was.
    subst hca
    refine NameSet.ext_mem fun b => ?_
    have hnone : ∀ b, ¬ b ∈ (edges.of c).insertAll others := by
      intro b hb
      have hnil : ((edges.of c).insertAll others).names = [] := List.isEmpty_iff.mp hempty
      have hb' : b ∈ ((edges.of c).insertAll others).names := hb
      rw [hnil] at hb'
      exact List.not_mem_nil hb'
    exact ⟨fun hb => absurd (NameSet.mem_insertAll.mpr (Or.inl hb)) (hnone b),
      fun hb => absurd hb (hnone b)⟩
  · rfl
  · subst hca
    show Std.TreeMap.getD _ _ _ = _
    rw [Std.TreeMap.getD_insert_self]
  · show Std.TreeMap.getD _ _ _ = _
    rw [Std.TreeMap.getD_insert, if_neg]
    · rfl
    · intro heq
      exact hca (Std.LawfulEqOrd.eq_of_compare heq).symm

theorem mem_of_add {others : List String} :
    b ∈ (edges.add a others).of c ↔ b ∈ edges.of c ∨ (c = a ∧ b ∈ others) := by
  rw [of_add]
  split_ifs with h
  · subst h
    simp
  · simp [h]

/-- The conflicts recorded for an item are those of its entry. -/
theorem mem_of_iff : b ∈ edges.of a ↔ ∃ others, (a, others) ∈ edges.toList ∧ b ∈ others := by
  unfold Edges.of
  rw [Std.TreeMap.getD_eq_getD_getElem?]
  constructor
  · intro hb
    cases hget : edges[a]? with
    | none =>
      rw [hget] at hb
      exact absurd hb (NameSet.not_mem_empty b)
    | some others =>
      rw [hget] at hb
      exact ⟨others, Std.TreeMap.mem_toList_iff_getElem?_eq_some.mpr hget, hb⟩
  · rintro ⟨others, hmem, hb⟩
    rw [Std.TreeMap.mem_toList_iff_getElem?_eq_some.mp hmem]
    exact hb

/-- Recording one item with each of some others. -/
theorem mem_of_foldl_add {others : List String} :
    c ∈ (others.foldl (fun edges b => edges.add b [a]) edges).of b ↔
      c ∈ edges.of b ∨ (b ∈ others ∧ c = a) := by
  induction others generalizing edges with
  | nil => simp
  | cons o os ih =>
    rw [List.foldl_cons, ih, mem_of_add, List.mem_singleton, List.mem_cons]
    constructor
    · rintro ((h | ⟨rfl, rfl⟩) | ⟨h, rfl⟩)
      · exact Or.inl h
      · exact Or.inr ⟨Or.inl rfl, rfl⟩
      · exact Or.inr ⟨Or.inr h, rfl⟩
    · rintro (h | ⟨rfl | h, rfl⟩)
      · exact Or.inl (Or.inl h)
      · exact Or.inl (Or.inr ⟨rfl, rfl⟩)
      · exact Or.inr ⟨h, rfl⟩

/-- Recording all entries of a list in the opposite direction. -/
theorem mem_of_foldl_reverse {entries : List (String × NameSet)} :
    c ∈ (entries.foldl
      (fun edges (a, others) => others.toList.foldl (fun edges b => edges.add b [a]) edges)
      edges).of b ↔
      c ∈ edges.of b ∨ ∃ others, (c, others) ∈ entries ∧ b ∈ others := by
  induction entries generalizing edges with
  | nil => simp
  | cons e es ih =>
    obtain ⟨a, others⟩ := e
    rw [List.foldl_cons, ih]
    dsimp only
    rw [mem_of_foldl_add, NameSet.mem_toList]
    simp only [List.mem_cons, Prod.mk.injEq]
    constructor
    · rintro ((h | ⟨h, rfl⟩) | ⟨os, hos, h⟩)
      · exact Or.inl h
      · exact Or.inr ⟨others, Or.inl ⟨rfl, rfl⟩, h⟩
      · exact Or.inr ⟨os, Or.inr hos, h⟩
    · rintro (h | ⟨os, ⟨rfl, rfl⟩ | hos, h⟩)
      · exact Or.inl (Or.inl h)
      · exact Or.inl (Or.inr ⟨h, rfl⟩)
      · exact Or.inr ⟨os, hos, h⟩

end Edges

namespace Declarations

variable {d : Declarations} {a b id : String}

/-- **The finished record** has a conflict if it is declared in either direction. -/
theorem mem_conflictsOf_symmetric :
    b ∈ d.symmetric.conflictsOf a ↔ b ∈ d.declared.of a ∨ a ∈ d.declared.of b := by
  show b ∈ Edges.of _ a ↔ _
  rw [symmetric, Edges.mem_of_foldl_reverse, ← Edges.mem_of_iff]

theorem symmetric_comm : d.symmetric.Conflicts a b ↔ d.symmetric.Conflicts b a := by
  show b ∈ d.symmetric.conflictsOf a ↔ a ∈ d.symmetric.conflictsOf b
  rw [mem_conflictsOf_symmetric, mem_conflictsOf_symmetric, or_comm]

@[simp]
theorem candidates_symmetric : d.symmetric.candidates = d.candidates := rfl

@[simp]
theorem declared_addCandidate : (d.addCandidate id).declared = d.declared := rfl

@[simp]
theorem mem_candidates_addCandidate :
    a ∈ (d.addCandidate id).candidates ↔ a = id ∨ a ∈ d.candidates :=
  NameSet.mem_insert

@[simp]
theorem candidates_declare {others : List String} :
    (d.declare id others).candidates = d.candidates := rfl

theorem mem_declared_declare {others : List String} :
    b ∈ (d.declare id others).declared.of a ↔
      b ∈ d.declared.of a ∨ (a = id ∧ b ∈ others ∧ b ≠ a) := by
  show b ∈ (d.declared.add id _).of a ↔ _
  rw [Edges.mem_of_add]
  simp only [List.mem_filter, decide_eq_true_eq]
  apply or_congr Iff.rfl
  constructor
  · rintro ⟨rfl, hb, hne⟩
    exact ⟨rfl, hb, hne⟩
  · rintro ⟨rfl, hb, hne⟩
    exact ⟨rfl, hb, hne⟩

end Declarations

/-! ### Records of calls -/

/-- One thing that is recorded: what an item declares, or that an item is a candidate. -/
inductive DeclarationCall where
  | conflicts (id : String) (others : List String)
  | candidate (id : String)
deriving DecidableEq

/-- Some call declares `b` for `a`. -/
def Declares (calls : List DeclarationCall) (a b : String) : Prop :=
  ∃ others, .conflicts a others ∈ calls ∧ b ∈ others

namespace Declarations

/-- The record with one thing more. -/
def call (d : Declarations) : DeclarationCall → Declarations
  | .conflicts id others => d.declare id others
  | .candidate id => d.addCandidate id

variable {calls : List DeclarationCall} {d : Declarations} {a b : String}

/-- What is declared after some calls. -/
theorem mem_declared_calls :
    b ∈ (calls.foldl call d).declared.of a ↔
      b ∈ d.declared.of a ∨ (b ≠ a ∧ Declares calls a b) := by
  induction calls generalizing d with
  | nil => simp [Declares]
  | cons c cs ih =>
    rw [List.foldl_cons, ih]
    cases c with
    | conflicts id others =>
      have hcons : Declares (.conflicts id others :: cs) a b ↔
          (a = id ∧ b ∈ others) ∨ Declares cs a b := by
        simp [Declares, or_and_right, exists_or, and_assoc]
      rw [call, mem_declared_declare, hcons]
      tauto
    | candidate id =>
      have hcons : Declares (.candidate id :: cs) a b ↔ Declares cs a b := by simp [Declares]
      rw [call, declared_addCandidate, hcons]

/-- Who is a candidate after some calls. -/
theorem mem_candidates_calls :
    a ∈ (calls.foldl call d).candidates ↔ a ∈ d.candidates ∨ .candidate a ∈ calls := by
  induction calls generalizing d with
  | nil => simp
  | cons c cs ih =>
    rw [List.foldl_cons, ih]
    cases c with
    | conflicts id others => simp [call]
    | candidate id =>
      simp only [call, mem_candidates_addCandidate, List.mem_cons, DeclarationCall.candidate.injEq]
      tauto

end Declarations

/-! ### The record of a tree -/

/-- What is recorded for an item with some label. -/
def Label.calls (label : Label) : List DeclarationCall :=
  [.candidate label.id, .conflicts label.id label.declared.toList]

namespace Declarations

variable {labels : List Label} {d : Declarations} {a b : String}

theorem foldl_collect :
    labels.foldl (fun d label => (d.addCandidate label.id).declare label.id label.declared.toList)
      d = (labels.flatMap Label.calls).foldl call d := by
  rw [List.foldl_flatMap]
  rfl

/-- Collecting what some items declare. -/
theorem mem_declared_collect :
    b ∈ (labels.foldl
      (fun d label => (d.addCandidate label.id).declare label.id label.declared.toList)
      d).declared.of a ↔
      b ∈ d.declared.of a ∨ ∃ label ∈ labels, label.id = a ∧ b ∈ label.declared ∧ b ≠ a := by
  rw [foldl_collect, mem_declared_calls]
  apply or_congr Iff.rfl
  simp only [Declares, Label.calls, List.mem_flatMap, List.mem_cons, List.not_mem_nil, or_false,
    reduceCtorEq, false_or, DeclarationCall.conflicts.injEq]
  constructor
  · rintro ⟨hne, _, ⟨label, hlabel, rfl, rfl⟩, hb⟩
    exact ⟨label, hlabel, rfl, hb, hne⟩
  · rintro ⟨label, hlabel, rfl, hb, hne⟩
    exact ⟨hne, _, ⟨label, hlabel, rfl, rfl⟩, hb⟩

/-- Collecting who is a candidate. -/
theorem mem_candidates_collect :
    a ∈ (labels.foldl
      (fun d label => (d.addCandidate label.id).declare label.id label.declared.toList)
      d).candidates ↔
      a ∈ d.candidates ∨ ∃ label ∈ labels, label.id = a := by
  rw [foldl_collect, mem_candidates_calls]
  simp [Label.calls, List.mem_flatMap, eq_comm]

end Declarations

namespace Part

variable {part c : Part} {a b : String}

/-- The candidates of a tree are the items attached to it. -/
theorem mem_candidates_declarations :
    a ∈ part.declarations.candidates ↔ ∃ c, part.Attached c ∧ a = c.id := by
  rw [declarations, Declarations.mem_candidates_collect]
  constructor
  · rintro (h | ⟨label, hl, rfl⟩)
    · exact absurd h (NameSet.not_mem_empty a)
    · obtain ⟨c, hc, rfl⟩ := mem_labels_tail.mp hl
      exact ⟨c, hc, rfl⟩
  · rintro ⟨c, hc, rfl⟩
    exact Or.inr ⟨c.label, mem_labels_tail.mpr ⟨c, hc, rfl⟩, rfl⟩

theorem mem_declared_declarations :
    b ∈ part.declarations.declared.of a ↔
      ∃ c, part.Attached c ∧ c.id = a ∧ b ∈ c.label.declared ∧ b ≠ a := by
  rw [declarations, Declarations.mem_declared_collect]
  constructor
  · rintro (h | ⟨label, hl, rfl, hb, hne⟩)
    · exact absurd h Edges.not_mem_of_empty
    · obtain ⟨c, hc, rfl⟩ := mem_labels_tail.mp hl
      exact ⟨c, hc, rfl, hb, hne⟩
  · rintro ⟨c, hc, rfl, hb, hne⟩
    exact Or.inr ⟨c.label, mem_labels_tail.mpr ⟨c, hc, rfl⟩, rfl, hb, hne⟩

/-- **The conflicts of a tree**: two different items, one of which declares the other. -/
theorem conflicts_iff :
    part.declarations.symmetric.Conflicts a b ↔ a ≠ b ∧ ∃ c, part.Attached c ∧
      ((c.id = a ∧ b ∈ c.label.declared) ∨ (c.id = b ∧ a ∈ c.label.declared)) := by
  show b ∈ ConflictMap.conflictsOf _ a ↔ _
  rw [Declarations.mem_conflictsOf_symmetric, mem_declared_declarations,
    mem_declared_declarations]
  constructor
  · rintro (⟨c, hc, hid, hdecl, hne⟩ | ⟨c, hc, hid, hdecl, hne⟩)
    · exact ⟨hne.symm, c, hc, Or.inl ⟨hid, hdecl⟩⟩
    · exact ⟨hne, c, hc, Or.inr ⟨hid, hdecl⟩⟩
  · rintro ⟨hne, c, hc, ⟨hid, hdecl⟩ | ⟨hid, hdecl⟩⟩
    · exact Or.inl ⟨c, hc, hid, hdecl, hne.symm⟩
    · exact Or.inr ⟨c, hc, hid, hdecl, hne⟩

end Part

end Gunsmith
