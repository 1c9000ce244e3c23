/-
  The search with a table of numbered sub-problems.

  A list of slots and a set of exclusions may both be long, so each of them gets a number when
  it comes up first, and a solution is kept under two numbers (`Ticket`).  A sub-problem is
  looked up before it is solved, and its solution is entered under the ticket of that lookup,
  while the calls in between have numbered further lists and sets and entered solutions of
  their own.

  Nothing in the calls themselves says that they end: the list of open slots gets longer when the
  slots of a candidate join it.  So it is laid down how deep calls may be nested, and a search
  is without an outcome if this does not suffice.

  The lookups made are kept along with the table, so that every call can be told from the end.
-/
import Gunsmith.Search.Numbering
import Gunsmith.Search.Solver

namespace Gunsmith

/-! ### The table -/

/-- What a solution is kept under: the number of the slots, and that of the exclusions. -/
@[ext]
structure Ticket where
  slots : Nat
  excluded : Nat
deriving DecidableEq

/-- An order of tickets, for the table. -/
def Ticket.cmp : Ticket → Ticket → Ordering :=
  compareLex (compareOn Ticket.slots) (compareOn Ticket.excluded)

instance : Std.TransCmp Ticket.cmp :=
  inferInstanceAs (Std.TransCmp (compareLex (compareOn Ticket.slots) (compareOn Ticket.excluded)))

instance : Std.LawfulEqCmp Ticket.cmp where
  eq_of_compare {a b} h := by
    obtain ⟨hslots, hexcluded⟩ := compareLex_eq_eq.mp h
    exact Ticket.ext (Std.LawfulEqOrd.eq_of_compare hslots)
      (Std.LawfulEqOrd.eq_of_compare hexcluded)

/-- The lists and sets that came up so far, and the solutions found so far. -/
structure NumberedMemo where
  slotLists : Numbering (List (List Nat))
  exclusions : Numbering (List String)
  solutions : Std.TreeMap Ticket Solution Ticket.cmp

namespace NumberedMemo

/-- Before anything came up. -/
def empty : NumberedMemo := ⟨.empty, .empty, ∅⟩

/-- The ticket of a sub-problem, and the table with its slots and exclusions numbered. -/
def ticket (t : NumberedMemo) (p : Subproblem) : Ticket × NumberedMemo :=
  let (i, slotLists) := t.slotLists.number p.1
  let (j, exclusions) := t.exclusions.number p.2
  (⟨i, j⟩, { t with slotLists := slotLists, exclusions := exclusions })

/-- The table with one more solution. -/
def enter (t : NumberedMemo) (ticket : Ticket) (solution : Solution) : NumberedMemo :=
  { t with solutions := t.solutions.insert ticket solution }

end NumberedMemo

/-! ### The course of a search -/

/-- A call of the search: the slots to decide, and the items that are excluded meanwhile. -/
structure SearchCall where
  slots : List Slot
  excluded : NameSet

/-- The sub-problem that a call is to solve. -/
def SearchCall.subproblem (call : SearchCall) : Subproblem := .of call.slots call.excluded

/-- A call that looked its sub-problem up. -/
structure Lookup where
  call : SearchCall
  ticket : Ticket
  /-- The solution that the table held. -/
  found : Option Solution

/-- What a search with a numbered table carries along. -/
structure Course where
  memo : NumberedMemo
  stats : SearchStats
  /-- The lookups made so far, the last one last. -/
  lookups : List Lookup

namespace Course

/-- Before the first call. -/
def start : Course := ⟨.empty, ⟨0, 0, 0, 0⟩, []⟩

/-- The lookup of a call, and the course afterwards. -/
def lookUp (s : Course) (call : SearchCall) : Lookup × Course :=
  let (ticket, memo) := s.memo.ticket call.subproblem
  let lookup : Lookup := ⟨call, ticket, memo.solutions[ticket]?⟩
  (lookup, { s with memo := memo, lookups := s.lookups ++ [lookup] })

end Course

/-- Steps of a search with a numbered table.  They are without any outcome if calls are nested
deeper than allowed. -/
abbrev Solving := StateT Course Option

namespace Solving

/-- Looks the sub-problem of a call up. -/
def lookUp (call : SearchCall) : Solving Lookup := modifyGet fun s => s.lookUp call

/-- Counts something. -/
def count (f : SearchStats → SearchStats) : Solving Unit :=
  modify fun s => { s with stats := f s.stats }

/-- Enters a solution into the table. -/
def enter (ticket : Ticket) (solution : Solution) : Solving Unit :=
  modify fun s => { s with memo := s.memo.enter ticket solution }

section

variable (m : ConflictMap) (stat : Stat) (call : SearchCall → Solving Solution)

/-- The best way to fill the slots below an item, which is found by the given means. -/
def below (part : Part) (excluded : NameSet) : Solving Solution :=
  return SearchContext.withOwn part (← call ⟨part.slots, excluded⟩)

/-- The best continuation once a candidate is put into a slot. -/
def choose (slot : Slot) (part : Part) (rest : List Slot) (excluded : NameSet) :
    Solving Solution := do
  let selection := slot.select (some part)
  if part.conflictFree m then
    let below ← below call part excluded
    let others ← call ⟨rest, excluded⟩
    return .prepend selection 0 [below, others]
  else
    let others ← call
      ⟨rest ++ part.slots, excluded.insertAll (m.conflictsOf part.id).toList⟩
    return .prepend selection part.label.modifiers [others]

/-- The best of an incumbent and the choices of some candidates for a slot. -/
def chooseAmong (slot : Slot) (rest : List Slot) (excluded : NameSet) :
    List Part → Solution → Solving Solution
  | [], best => return best
  | c :: cs, best => do
    if c.id ∈ excluded then
      chooseAmong slot rest excluded cs best
    else
      let option ← choose m call slot c rest excluded
      chooseAmong slot rest excluded cs (if option.Better stat best then option else best)

end

/-- The best way to decide some slots while some items are excluded; calls may be nested to the
given depth. -/
def solve (m : ConflictMap) (stat : Stat) : Nat → SearchCall → Solving Solution
  | 0, _ => failure
  | _ + 1, ⟨[], _⟩ => return .empty
  | depth + 1, ⟨slot :: rest, excluded⟩ => do
    let lookup ← lookUp ⟨slot :: rest, excluded⟩
    match lookup.found with
    | some solution =>
      count fun s => { s with memoHits := s.memoHits + 1 }
      return solution
    | none =>
      count fun s => { s with visited := s.visited + 1 }
      let skipped ← solve m stat depth ⟨rest, excluded⟩
      let best ← chooseAmong m stat (solve m stat depth) slot rest excluded slot.candidates
        (.prepend (slot.select none) 0 [skipped])
      enter lookup.ticket best
      return best

end Solving

end Gunsmith
