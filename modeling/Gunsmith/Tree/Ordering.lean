/-
  The order of candidates.

  Candidates for a slot are tried in an order that depends on the stat in focus: first
  those whose best reachable value is better, among these those whose own modifier is
  better, and then by id.  Ids differ within a slot, so the order leaves nothing open.
-/
import Gunsmith.Tree.Reach

namespace Gunsmith

/-- Candidate `a` is tried no later than candidate `b`. -/
def Part.Precedes (stat : Stat) (a b : Part) : Prop :=
  stat.Better (a.bounds.best stat) (b.bounds.best stat) ∨
    (a.bounds.best stat = b.bounds.best stat ∧
      (stat.Better (a.label.modifiers.pick stat) (b.label.modifiers.pick stat) ∨
        (a.label.modifiers.pick stat = b.label.modifiers.pick stat ∧ a.id ≤ b.id)))

instance Part.decidablePrecedes (stat : Stat) (a b : Part) : Decidable (a.Precedes stat b) :=
  inferInstanceAs (Decidable (_ ∨ _))

/-- Puts the candidates for each slot of a tree into the order in which they are tried. -/
def Part.ordered (stat : Stat) : Part → Part :=
  Part.fold Part.mk fun site candidates =>
    Slot.mk site (candidates.mergeSort fun a b => decide (a.Precedes stat b))

end Gunsmith
