/-
  Dropping candidates that cannot matter.

  A candidate is dropped from a slot when another candidate for the slot outranks it and
  is conflict-free: whatever is chosen for the rest, the other one can take its place
  without making the build worse.  All candidates are judged against all others by the
  bounds that they have before anything is dropped.

  The argument needs everything at and below the outranking candidates to be choosable;
  `Part.rivalIds` lists what an evaluation must not exclude afterwards.
-/
import Gunsmith.Tree.Reach

namespace Gunsmith

/-- What a candidate is judged by. -/
structure Rating where
  bounds : Bounds
  conflictFree : Bool

/-- The rating of a candidate. -/
def Part.rating (m : ConflictMap) (part : Part) : Rating :=
  ⟨part.bounds, part.conflictFree m⟩

/-- The rival at position `k` removes the candidate at position `j`. -/
def Rating.Removes (stat : Stat) (rival : Rating) (k : Nat) (target : Rating) (j : Nat) : Prop :=
  rival.conflictFree = true ∧ k ≠ j ∧ rival.bounds.Outranks target.bounds stat (decide (k < j))

instance (stat : Stat) (rival : Rating) (k : Nat) (target : Rating) (j : Nat) :
    Decidable (rival.Removes stat k target j) :=
  inferInstanceAs (Decidable (_ ∧ _))

/-- For each candidate, in order: some other candidate removes it. -/
def Rating.removed (stat : Stat) (ratings : List Rating) : List Bool :=
  ratings.zipIdx.map fun (target, j) =>
    ratings.zipIdx.any fun (rival, k) => decide (rival.Removes stat k target j)

/-- The members of a list whose mark is as wanted. -/
def selectMarked {α : Type} (wanted : Bool) (xs : List α) (marks : List Bool) : List α :=
  ((xs.zip marks).filter fun (_, mark) => mark == wanted).map Prod.fst

mutual

/-- Drops from all slots below an item the candidates that cannot matter. -/
def Part.prune (m : ConflictMap) (stat : Stat) : Part → Part
  | .mk label slots => .mk label (Slot.pruneAll m stat slots)

/-- Drops the candidates that cannot matter from a slot and all slots below it. -/
def Slot.prune (m : ConflictMap) (stat : Stat) : Slot → Slot
  | .mk site candidates =>
    let marks := Rating.removed stat (candidates.map (Part.rating m))
    .mk { site with pruned := site.pruned ++ (selectMarked true candidates marks).map Part.id }
      (selectMarked false (Part.pruneAll m stat candidates) marks)

/-- Drops the candidates that cannot matter from some slots and all slots below them. -/
def Slot.pruneAll (m : ConflictMap) (stat : Stat) : List Slot → List Slot
  | [] => []
  | s :: ss => Slot.prune m stat s :: Slot.pruneAll m stat ss

/-- Drops the candidates that cannot matter from all slots below some items. -/
def Part.pruneAll (m : ConflictMap) (stat : Stat) : List Part → List Part
  | [] => []
  | c :: cs => Part.prune m stat c :: Part.pruneAll m stat cs

end

/-- The ids at and below those candidates in whose favour others may have been dropped. -/
def Part.rivalIds (m : ConflictMap) (part : Part) : NameSet :=
  .ofList <| part.allSlots.flatMap fun slot =>
    if slot.site.pruned.isEmpty then []
    else slot.candidates.flatMap fun c => if c.conflictFree m then c.ids else []

end Gunsmith
