/-
  The finished tree of candidates for a request.

  A request names a weapon, a stat and constraints.  Its tree is the expansion of the
  weapon, ordered for the stat and pruned; the conflicts are those declared anywhere in
  the expansion, before pruning.  A request whose constraints make no sense fails before
  anything is read.
-/
import Gunsmith.Tree.Expansion
import Gunsmith.Tree.Ordering
import Gunsmith.Tree.Pruning

namespace Gunsmith

/-- The candidates for a request, ready to be searched. -/
structure CandidateTree where
  root : Part
  conflicts : ConflictMap
  stat : Stat
  constraints : Constraints
  maxDepth : Nat
  /-- The depth limit kept some slots closed while the tree was expanded. -/
  truncated : Bool

namespace CandidateTree

/-- The depth limit where none is asked for. -/
def defaultDepth : Nat := 32

/-- The node of a weapon, which declares nothing. -/
def rootLabel (w : Weapon) : Label :=
  ⟨w.id, w.name, .weapon, w.modifiers, ∅, false⟩

/-- The tree as expanded, with nothing ordered and nothing dropped. -/
def expansion {m : Type → Type} [Monad m] (p : Provider m) (maxDepth : Nat) (weaponId : String)
    (c : Constraints) : Reading m Part := do
  match c.validate with
  | .error detail => throw (.invalidConfiguration detail)
  | .ok () =>
    let w ← Reading.ask weaponId (p.weapon weaponId)
    expand p c maxDepth [] [] (rootLabel w)

/-- The finished tree over an expansion. -/
def ofExpansion (maxDepth : Nat) (stat : Stat) (c : Constraints) (part : Part) : CandidateTree :=
  let conflicts := part.declarations.symmetric
  { root := (part.ordered stat).prune conflicts stat
    conflicts := conflicts
    stat := stat
    constraints := c
    maxDepth := maxDepth
    truncated := part.truncated }

/-- Collects the candidates for a request. -/
def build {m : Type → Type} [Monad m] (p : Provider m) (maxDepth : Nat) (weaponId : String)
    (stat : Stat) (c : Constraints) : Reading m CandidateTree := do
  return ofExpansion maxDepth stat c (← expansion p maxDepth weaponId c)

/-- The ids that an evaluation on the tree must not exclude. -/
def rivalIds (tree : CandidateTree) : NameSet :=
  tree.root.rivalIds tree.conflicts

end CandidateTree

end Gunsmith
