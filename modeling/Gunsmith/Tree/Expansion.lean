/-
  Expanding the tree of candidates.

  Starting from an item, its slots are opened, except those that the constraints ignore,
  and every item that fits a slot is considered for it.  It is mounted unless it is
  excluded, nobody sells it at the buyer's levels, or its placement would repeat one on
  the way; a mounted item is expanded in turn before the next one is considered.  The
  depth limit counts down: at zero the slots of an item stay closed, and the item is
  marked if it has any.

  Everything is read through a `Provider`, and the first failing read ends the
  expansion.
-/
import Gunsmith.Provider
import Gunsmith.Tree.Basic

namespace Gunsmith

/-- Steps that read the catalogue through a source with memory `m` and may fail. -/
abbrev Reading (m : Type → Type) := ExceptT EvalError m

namespace Reading

/-- Asks a question about an item; a failure is told apart by what it means for the item. -/
def ask {m : Type → Type} [Monad m] {α : Type} (itemId : String)
    (question : m (Except StoreError α)) : Reading m α :=
  ExceptT.mk do return (← question).mapError (EvalError.ofRead itemId)

end Reading

/-- What becomes of an item that fits a slot. -/
inductive Verdict (α : Type) where
  /-- The item is excluded, or nobody sells it at the buyer's levels. -/
  | unavailable
  /-- The placement of the item is already on the way to the slot. -/
  | cyclic
  /-- The item is a candidate. -/
  | mounted (part : α)

namespace Verdict

/-- The candidate, if the item became one. -/
def part? {α : Type} : Verdict α → Option α
  | .mounted part => some part
  | _ => none

/-- Holds of an item kept out because its placement would repeat. -/
def isCyclic {α : Type} : Verdict α → Bool
  | .cyclic => true
  | _ => false

end Verdict

section Expansion

variable {m : Type → Type} [Monad m] (p : Provider m) (c : Constraints)

/-- Decides about an item that fits a slot at the end of a chain, up to its expansion. -/
def consider (chain : List Placement) (slotId : String) (item : AllowedItem) :
    Reading m (Verdict Label) := do
  if c.Excludes item.id then
    return .unavailable
  let offers ← Reading.ask item.id (p.offers item.id)
  if ¬ c.levels.CanPurchase offers then
    return .unavailable
  if ⟨item.id, slotId⟩ ∈ chain then
    return .cyclic
  let found ← Reading.ask item.id (p.properties item.id)
  return .mounted
    ⟨item.id, item.name, .attachment, found.modifiers, NameSet.ofList found.conflicts, false⟩

/-- Expands an item down to a depth. -/
def expand : Nat → List Placement → List Nat → Label → Reading m Part
  | 0, _, _, label => do
    let rows ← Reading.ask label.id (p.slots label.id)
    return .mk { label with cut := !rows.isEmpty } []
  | depth + 1, chain, address, label => do
    let rows ← Reading.ask label.id (p.slots label.id)
    let slots ← (rows.filter fun row => ¬ c.Ignores row.name).zipIdx.mapM fun (row, i) => do
      let allowed ← Reading.ask label.id (p.allowed row.id)
      let verdicts ← allowed.zipIdx.mapM fun (item, j) => do
        match ← consider p c chain row.id item with
        | .mounted label =>
          let part ← expand depth (⟨item.id, row.id⟩ :: chain) (j :: i :: address) label
          return (item.id, Verdict.mounted part)
        | .cyclic => return (item.id, Verdict.cyclic)
        | .unavailable => return (item.id, Verdict.unavailable)
      return Slot.mk
        { id := row.id
          name := row.name
          ownerId := label.id
          address := i :: address
          chain := chain
          cyclic := (verdicts.filter fun (_, v) => v.isCyclic).map Prod.fst
          pruned := [] }
        (verdicts.filterMap fun (_, v) => v.part?)
    return .mk label slots

end Expansion

end Gunsmith
