/-
  Access to the catalogue.

  Candidates are collected through five questions (`Provider`).  Where the answers come
  from is left open: the monad `m` carries whatever the source remembers between
  questions.  A source can be made to fail on chosen questions
  (`Provider.withFaults`), all others being passed on.
-/
import Gunsmith.Error
import Gunsmith.Item
import Gunsmith.Trader

namespace Gunsmith

/-- A source of catalogue data. -/
structure Provider (m : Type → Type) where
  /-- The weapon with an id. -/
  weapon : String → m (Except StoreError Weapon)
  /-- The slots of an item, in the order of the catalogue. -/
  slots : String → m (Except StoreError (List SlotRecord))
  /-- The items that fit a slot, in the order of the catalogue. -/
  allowed : String → m (Except StoreError (List AllowedItem))
  /-- The modifiers and declared conflicts of an attachment. -/
  properties : String → m (Except StoreError Properties)
  /-- The offers for an item. -/
  offers : String → m (Except StoreError (List Offer))

/-- The five questions. -/
inductive Question where
  | weapon
  | slots
  | allowed
  | properties
  | offers
deriving DecidableEq, Inhabited

/-- A question that is answered by a failure: which one, asked about what. -/
structure Fault where
  question : Question
  id : String
  error : StoreError
deriving DecidableEq, Inhabited

/-- The failure for a question, if there is one; the first that matches counts. -/
def Fault.find? (faults : List Fault) (question : Question) (id : String) : Option StoreError :=
  (faults.find? fun f => f.question = question ∧ f.id = id).map Fault.error

/-- Asks, unless the question is to fail; then the source is not consulted. -/
def Fault.guard {m : Type → Type} [Monad m] {α : Type} (faults : List Fault)
    (question : Question) (ask : String → m (Except StoreError α)) (id : String) :
    m (Except StoreError α) :=
  match Fault.find? faults question id with
  | some e => pure (.error e)
  | none => ask id

/-- The source with the given failures put in front of it. -/
def Provider.withFaults {m : Type → Type} [Monad m] (p : Provider m) (faults : List Fault) :
    Provider m where
  weapon := Fault.guard faults .weapon p.weapon
  slots := Fault.guard faults .slots p.slots
  allowed := Fault.guard faults .allowed p.allowed
  properties := Fault.guard faults .properties p.properties
  offers := Fault.guard faults .offers p.offers

end Gunsmith
