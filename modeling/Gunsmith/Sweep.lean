/-
  Entering jobs for many requests at once.

  A sweep enters one job for every combination of a weapon, a stat and an assignment of
  trader levels, in this nesting order.  The levels are all checked before anything is
  entered; a failure after that ends the sweep where it is.
-/
import Gunsmith.Store.Catalog
import Gunsmith.Store.Queue

namespace Gunsmith

/-- What a sweep covers: all weapons of the catalogue unless some are named. -/
structure Sweep where
  weapons : Option (List String)
  stats : List Stat
  profiles : List TraderLevels
  priority : Int

namespace Sweep

/-- The combinations of a sweep over some weapons, in order. -/
def requests (sweep : Sweep) (weapons : List String) : List (String × Stat × Constraints) :=
  weapons.flatMap fun weapon => sweep.stats.flatMap fun stat =>
    sweep.profiles.map fun profile => (weapon, stat, .ofLevels profile)

/-- Enters jobs one after the other, each at its own moment, until one is refused. -/
def enter (priority : Int) (moments : Nat → Moment) :
    List (String × Stat × Constraints) → Store → Except StoreError (List String) × Store
  | [], s => (.ok [], s)
  | (item, stat, c) :: rest, s =>
    match (Transaction.enqueue (moments 0) item stat c priority).call s with
    | (.error e, s) => (.error e, s)
    | (.ok id, s) =>
      let (answer, s) := enter priority (fun i => moments (i + 1)) rest s
      (answer.map (id :: ·), s)

/-- Checks the levels of all profiles. -/
def validate (sweep : Sweep) : Except StoreError Unit :=
  sweep.profiles.forM fun profile => (Constraints.ofLevels profile).validate.mapError .invalid

/-- Enters the jobs of a sweep and answers their ids. -/
def enqueueAll (sweep : Sweep) (moments : Nat → Moment) (s : Store) :
    Except StoreError (List String) × Store :=
  let weapons := do
    sweep.validate
    match sweep.weapons with
    | some ids => pure ids
    | none => s.weaponIds
  match weapons with
  | .ok weapons => enter sweep.priority moments (sweep.requests weapons) s
  | .error e => (.error e, s)

end Sweep

end Gunsmith
