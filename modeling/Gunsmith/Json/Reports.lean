/-
  The JSON form of what is reported but never stored.

  Counts, outcomes and the finished tree of candidates are written so that a person or
  another program can look at them; nothing reads them back.  Floating-point settings
  are reported by their bits, because a decimal text says less.
-/
import Gunsmith.Config
import Gunsmith.Json.Forms

namespace Gunsmith

/-! ### Numbers -/

/-- A natural number as JSON. -/
def Json.nat (n : Nat) : Json := .int n

/-- The value of something that may be missing: `null` for none. -/
def Json.nullable {α : Type} (toJson : α → Json) : Option α → Json
  | some a => toJson a
  | none => .null

/-- The bits of a number, as sixteen hexadecimal digits. -/
def Binary64.hex (x : Binary64) : String :=
  let digits := Nat.toDigits 16 x.bits.toNat
  String.ofList (List.replicate (16 - digits.length) '0' ++ digits)

/-- The ends of both ranges. -/
def Bounds.toJson (b : Bounds) : Json :=
  .list [.int b.low.recoil, .int b.high.recoil, .int b.low.ergonomics, .int b.high.ergonomics]

/-! ### Evaluations -/

def SearchStats.toJson (s : SearchStats) : Json :=
  .object
    [("nodes_visited", .nat s.visited),
     ("memo_hits", .nat s.memoHits),
     ("cache_hits", .nat s.cacheHits),
     ("cache_misses", .nat s.cacheMisses)]

def SearchOutcome.members (o : SearchOutcome) : Json.Members :=
  [("result", o.result.toJson), ("stats", o.stats.toJson)]

def CacheStats.members (s : CacheStats) : Json.Members :=
  [("hits", .nat s.hits), ("misses", .nat s.misses), ("writes", .nat s.writes)]

/-- The number of entries of a cache that keeps them itself. -/
def Cache.sizeMembers (cache : Cache) : Json.Members :=
  match cache.entries with
  | some entries => [("len", .nat entries.size), ("empty", .bool entries.isEmpty)]
  | none => []

def QueueStats.toJson (s : QueueStats) : Json :=
  .object
    [("queued", .nat s.queued),
     ("processing", .nat s.processing),
     ("completed", .nat s.completed),
     ("failed", .nat s.failed)]

def Outcome.toJson : Outcome → Json
  | .alreadyCompleted id =>
    .object [("outcome", .text "AlreadyCompleted"), ("build_id", .text id)]
  | .completed id sums fromSubtree =>
    .object
      [("outcome", .text "Completed"),
       ("build_id", .text id),
       ("recoil_sum", .int sums.recoil),
       ("ergonomics_sum", .int sums.ergonomics),
       ("from_subtree_cache", .bool fromSubtree)]
  | .failed message => .object [("outcome", .text "Failed"), ("error_message", .text message)]

/-! ### Configuration -/

def Config.members (config : Config) : Json.Members :=
  [("parallelism_factor_bits", .text config.factor.hex),
   ("poll_interval_ms", .nat config.pollMillis),
   ("channel_capacity", .nullable .nat config.capacity),
   ("max_tree_depth", .nat config.depth),
   ("data_version", .text config.version),
   ("cache_backend", .text config.backend.name)]

/-- What follows from a configuration on machines with so many processors. -/
def Config.sizeMembers (config : Config) (processors : List Nat) : Json.Members :=
  [("workers", .list (processors.map fun n => .nat (config.workers n))),
   ("capacity", .list (processors.map fun n => .nat (config.effectiveCapacity n)))]

/-! ### Conflicts and trees -/

/-- The conflicts of an item. -/
def ConflictMap.itemToJson (m : ConflictMap) (id : String) : Json :=
  .object
    [("with", .texts (m.conflictsOf id).toList),
     ("live", .bool (decide (m.Live id)))]

/-- A slot, and which of some items would repeat a placement in it. -/
def Slot.toJson (ids : List String) (slot : Slot) : Json :=
  .object
    [("id", .text slot.site.id),
     ("name", .text slot.site.name),
     ("parent", .text slot.site.ownerId),
     ("bounds", slot.bounds.toJson),
     ("candidates", .texts (slot.candidates.map Part.id)),
     ("cycle_excluded", .texts slot.site.cyclic),
     ("pruned", .texts slot.site.pruned),
     ("would_cycle", .texts (ids.filter fun id => decide (slot.site.WouldCycle id)))]

def Part.Node.toJson (m : ConflictMap) (ids : List String) (node : Part.Node) : Json :=
  let label := node.part.label
  .object
    [("id", .text label.id),
     ("name", .text label.name),
     ("kind", label.kind.toJson),
     ("recoil", .int label.modifiers.recoil),
     ("ergonomics", .int label.modifiers.ergonomics),
     ("conflicts", label.declared.toJson),
     ("depth", .nat node.depth),
     ("parent_slot", .ofOption node.slotId),
     ("bounds", node.part.bounds.toJson),
     ("conflict_free", .bool (node.part.conflictFree m)),
     ("slots", .list (node.part.slots.map (Slot.toJson ids)))]

/-- A finished tree, with remarks on some items. -/
def CandidateTree.toJson (ids : List String) (tree : CandidateTree) : Json :=
  let m := tree.conflicts
  let conflicting := ids.filter fun id => !(m.conflictsOf id).isEmpty
  .object
    [("items", .list ((tree.root.nodes 0 none).map (Part.Node.toJson m ids))),
     ("build_type", tree.stat.toJson),
     ("constraints_key", .text tree.constraints.key),
     ("max_depth", .nat tree.maxDepth),
     ("truncated", .bool tree.truncated),
     ("height", .nat tree.root.height),
     ("attached", .nat tree.root.size),
     ("subtree_ids", .texts tree.root.ids),
     ("rivals", tree.rivalIds.toJson),
     ("conflicts", .object (conflicting.map fun id => (id, m.itemToJson id))),
     ("edge_count", .nat m.edgeCount),
     ("symmetric", .bool m.isSymmetric)]

end Gunsmith
