/-
  The records that the store hands out.

  A job asks for the best build of a weapon; a build record says how far the evaluation
  of a request has come; a subtree entry keeps a result together with the depth down to
  which candidates were considered for it.
-/
import Gunsmith.Build
import Gunsmith.Constraints
import Gunsmith.Status

namespace Gunsmith

/-- A job of the queue. -/
structure Job where
  id : String
  itemId : String
  stat : Stat
  constraints : Constraints
  /-- Jobs of higher priority go first. -/
  priority : Int
  status : JobStatus
  createdAt : String
  startedAt : Option String
  completedAt : Option String
  error : Option String
deriving Inhabited

/-- How many jobs there are in each state. -/
structure QueueStats where
  queued : Nat
  processing : Nat
  completed : Nat
  failed : Nat
deriving DecidableEq, Inhabited

/-- A stored build. -/
structure BuildRecord where
  id : String
  itemId : String
  stat : Stat
  /-- The version of the catalogue that was evaluated. -/
  version : String
  constraints : Constraints
  status : BuildStatus
  result : Option BuildResult
  error : Option String
  createdAt : String
  updatedAt : String
deriving Inhabited

/-- A result kept with the depth down to which it is the best. -/
structure SubtreeEntry where
  itemId : String
  stat : Stat
  constraints : Constraints
  version : String
  depth : Nat
  result : BuildResult
deriving Inhabited

end Gunsmith
