/-
  Reading typed values out of JSON.

  A record is an object or a list.  In an object the members may come in any order, and
  members that the record does not know are skipped; a known member that comes twice, or is
  missing though the record needs it, makes the whole value unreadable.  A list holds the
  members without their names, in the order of the record, and nothing besides; it may end
  early only where all that is left out has a value of its own.

  An optional member may be `null`.  In an object it may also be missing.
-/
import Gunsmith.Json.Basic

namespace Gunsmith.Json

/-- The members of a record. -/
abbrev Members := List (String × Json)

/-- The members of an object. -/
def members? : Json → Option Members
  | .object members => some members
  | _ => none

/-- The members of a record, which has to have the members named first, and has a value of its own
for those named after them. -/
def record? (needed spare : List String) : Json → Option Members
  | .object members => some members
  | .list items =>
    if needed.length ≤ items.length ∧ items.length ≤ (needed ++ spare).length then
      some ((needed ++ spare).zip items)
    else
      none
  | _ => none

/-- The items of a list. -/
def items? : Json → Option (List Json)
  | .list items => some items
  | _ => none

/-- The text of a string. -/
def text? : Json → Option String
  | .text s => some s
  | _ => none

/-- A whole number within bounds. -/
def intIn? (low high : Int) : Json → Option Int
  | .int n => if low ≤ n ∧ n ≤ high then some n else none
  | _ => none

/-- A whole number that fits 64 bits with a sign. -/
def int64? : Json → Option Int :=
  intIn? (-9223372036854775808) 9223372036854775807

/-- A whole number from zero up to a bound. -/
def natUpTo? (high : Nat) (v : Json) : Option Nat :=
  (v.intIn? 0 high).map Int.toNat

/-- A keyword: the value it stands for, from a list of names.  A keyword may also be written as the
only key of an object whose value is `null`. -/
def keyword? {α : Type} (names : List (String × α)) : Json → Option α
  | .text s => names.lookup s
  | .object [(key, .null)] => names.lookup key
  | _ => none

/-- A list whose items all read. -/
def listOf? {α : Type} (read : Json → Option α) (v : Json) : Option (List α) := do
  (← v.items?).mapM read

namespace Members

/-- The member with a name: `none` inside if there is none, and nothing if there are several. -/
def find? (members : Members) (name : String) : Option (Option Json) :=
  match members.filter fun m => m.1 == name with
  | [] => some none
  | [(_, v)] => some (some v)
  | _ => none

/-- Reads a member that has to be there. -/
def required? {α : Type} (members : Members) (name : String) (read : Json → Option α) :
    Option α := do
  match ← find? members name with
  | some v => read v
  | none => none

/-- Reads a member that may be missing or `null`. -/
def optional? {α : Type} (members : Members) (name : String) (read : Json → Option α) :
    Option (Option α) := do
  match ← find? members name with
  | some .null => some none
  | some v => (read v).map some
  | none => some none

/-- Reads a member that may be missing and then has a value of its own. -/
def defaulted? {α : Type} (members : Members) (name : String) (default : α)
    (read : Json → Option α) : Option α := do
  match ← find? members name with
  | some v => read v
  | none => some default

end Members

end Gunsmith.Json
