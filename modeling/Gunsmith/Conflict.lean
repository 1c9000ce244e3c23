/-
  Which items exclude each other.

  Items declare conflicts, often one-sidedly.  While candidates are collected, what
  they declare is recorded together with who was a candidate at all (`Declarations`).
  Before the search the record is made symmetric (`Declarations.symmetric`): a conflict
  holds between two items as soon as either of them declares it.  A conflict matters
  only if the other party can be chosen at all, which is what `ConflictMap.Live` says.
-/
import Gunsmith.Text.NameSet
import Gunsmith.Total
import Std.Data.TreeMap

namespace Gunsmith

/-- For each item the items it is in conflict with; an item without an entry has none. -/
abbrev Edges := Std.TreeMap String NameSet

namespace Edges

/-- The conflicts recorded for an item. -/
def of (edges : Edges) (id : String) : NameSet :=
  edges.getD id ∅

/-- Records conflicts of an item; an empty record leaves no entry. -/
def add (edges : Edges) (id : String) (others : List String) : Edges :=
  let merged := (edges.of id).insertAll others
  if merged.isEmpty then edges else edges.insert id merged

end Edges

/-- What was declared so far, and who was a candidate so far. -/
structure Declarations where
  declared : Edges
  candidates : NameSet

namespace Declarations

/-- The record before anything was declared. -/
def empty : Declarations := ⟨∅, ∅⟩

/-- Records what an item declares; no item is in conflict with itself. -/
def declare (d : Declarations) (id : String) (others : List String) : Declarations :=
  { d with declared := d.declared.add id (others.filter (· ≠ id)) }

/-- Records that an item is a candidate. -/
def addCandidate (d : Declarations) (id : String) : Declarations :=
  { d with candidates := d.candidates.insert id }

end Declarations

/-- A finished record of conflicts. -/
structure ConflictMap where
  edges : Edges
  candidates : NameSet

namespace ConflictMap

/-- No conflicts and no candidates. -/
def empty : ConflictMap := ⟨∅, ∅⟩

/-- The items in conflict with an item, in ascending order. -/
def conflictsOf (m : ConflictMap) (id : String) : NameSet :=
  m.edges.of id

/-- The two items exclude each other. -/
def Conflicts (m : ConflictMap) (a b : String) : Prop :=
  b ∈ m.conflictsOf a

instance (m : ConflictMap) (a b : String) : Decidable (m.Conflicts a b) :=
  inferInstanceAs (Decidable (_ ∈ _))

/-- The item is in conflict with some candidate. -/
def Live (m : ConflictMap) (id : String) : Prop :=
  ∃ other ∈ (m.conflictsOf id).toList, other ∈ m.candidates

instance (m : ConflictMap) (id : String) : Decidable (m.Live id) :=
  inferInstanceAs (Decidable (∃ other ∈ (m.conflictsOf id).toList, other ∈ m.candidates))

/-- Every recorded conflict is recorded from both sides. -/
def isSymmetric (m : ConflictMap) : Bool :=
  m.edges.toList.all fun (a, others) => others.toList.all fun b => decide (m.Conflicts b a)

/-- The number of ordered pairs in conflict. -/
def edgeCount (m : ConflictMap) : Nat :=
  total (m.edges.toList.map fun (_, others) => others.size)

end ConflictMap

/-- The finished record: what either side declares holds for both. -/
def Declarations.symmetric (d : Declarations) : ConflictMap where
  edges := d.declared.toList.foldl
    (fun edges (a, others) => others.toList.foldl (fun edges b => edges.add b [a]) edges)
    d.declared
  candidates := d.candidates

end Gunsmith
