/-
  The JSON form of every record.

  For each type there is a function that writes it (`toJson`) and one that reads it
  (`ofJson?`).  What is written is read back as it was; what is read is more: members in
  any order, unknown members, lists of members without names, and sets with their members
  in any order and repeated.
-/
import Gunsmith.Json.Members
import Gunsmith.Item
import Gunsmith.Record

namespace Gunsmith

/-! ### Keywords -/

def Stat.toJson (stat : Stat) : Json := .text stat.name

def Stat.ofJson? : Json → Option Stat :=
  Json.keyword? (Stat.all.map fun stat => (stat.name, stat))

def ItemKind.toJson (kind : ItemKind) : Json := .text kind.name

def ItemKind.ofJson? : Json → Option ItemKind :=
  Json.keyword? ([.weapon, .attachment].map fun kind => (kind.name, kind))

def Trader.toJson (trader : Trader) : Json := .text trader.name

def Trader.ofJson? : Json → Option Trader :=
  Json.keyword? (Trader.all.map fun trader => (trader.name, trader))

def JobStatus.toJson (status : JobStatus) : Json := .text status.name

def JobStatus.ofJson? : Json → Option JobStatus :=
  Json.keyword? (JobStatus.all.map fun status => (status.name, status))

def BuildStatus.toJson (status : BuildStatus) : Json := .text status.name

def BuildStatus.ofJson? : Json → Option BuildStatus :=
  Json.keyword? (BuildStatus.all.map fun status => (status.name, status))

/-! ### Sets, levels and constraints -/

def NameSet.toJson (set : NameSet) : Json := .texts set.toList

def NameSet.ofJson? (v : Json) : Option NameSet :=
  (v.listOf? Json.text?).map NameSet.ofList

/-- The levels as an object, in the order of the traders. -/
def TraderLevels.toJson (levels : TraderLevels) : Json :=
  .object (levels.toList.map fun (trader, n) => (trader.name, .int n))

/-- Reads one level after another; a trader who comes again gets the later level. -/
def TraderLevels.ofMembers? (members : Json.Members) : Option TraderLevels :=
  members.foldlM (fun levels (name, v) => do
    let trader ← Trader.ofJson? (.text name)
    let n ← v.natUpTo? 255
    return levels.set trader n) .empty

def TraderLevels.ofJson? (v : Json) : Option TraderLevels := do
  ofMembers? (← v.members?)

def Constraints.toJson (c : Constraints) : Json :=
  .object
    [("trader_levels", c.levels.toJson),
     ("ignored_slot_names", c.ignoredSlots.toJson),
     ("excluded_item_ids", c.excludedItems.toJson)]

def Constraints.ofJson? (v : Json) : Option Constraints := do
  let ms ← v.record? ["trader_levels"] ["ignored_slot_names", "excluded_item_ids"]
  return {
    levels := ← ms.required? "trader_levels" TraderLevels.ofJson?
    ignoredSlots := ← ms.defaulted? "ignored_slot_names" ∅ NameSet.ofJson?
    excludedItems := ← ms.defaulted? "excluded_item_ids" ∅ NameSet.ofJson? }

/-! ### Builds -/

def Selection.toJson (s : Selection) : Json :=
  .object
    [("parent_item_id", .text s.parentId),
     ("slot_id", .text s.slotId),
     ("slot_name", .text s.slotName),
     ("item_id", .ofOption s.itemId),
     ("item_name", .ofOption s.itemName)]

def Selection.ofJson? (v : Json) : Option Selection := do
  let ms ← v.record? ["parent_item_id", "slot_id", "slot_name", "item_id", "item_name"] []
  return {
    parentId := ← ms.required? "parent_item_id" Json.text?
    slotId := ← ms.required? "slot_id" Json.text?
    slotName := ← ms.required? "slot_name" Json.text?
    itemId := ← ms.optional? "item_id" Json.text?
    itemName := ← ms.optional? "item_name" Json.text? }

/-- The JSON form of a list of selections. -/
def Selection.listToJson (selections : List Selection) : Json :=
  .list (selections.map Selection.toJson)

def BuildResult.toJson (r : BuildResult) : Json :=
  .object
    [("item_id", .text r.itemId),
     ("item_name", .text r.itemName),
     ("build_type", r.stat.toJson),
     ("recoil_sum", .int r.sums.recoil),
     ("ergonomics_sum", .int r.sums.ergonomics),
     ("selections", Selection.listToJson r.selections)]

def BuildResult.ofJson? (v : Json) : Option BuildResult := do
  let ms ← v.record?
    ["item_id", "item_name", "build_type", "recoil_sum", "ergonomics_sum", "selections"] []
  return {
    itemId := ← ms.required? "item_id" Json.text?
    itemName := ← ms.required? "item_name" Json.text?
    stat := ← ms.required? "build_type" Stat.ofJson?
    sums := {
      recoil := ← ms.required? "recoil_sum" Json.int64?
      ergonomics := ← ms.required? "ergonomics_sum" Json.int64? }
    selections := ← ms.required? "selections" (Json.listOf? Selection.ofJson?) }

def CacheEntry.toJson (e : CacheEntry) : Json :=
  .object
    [("item_id", .text e.itemId),
     ("build_type", e.stat.toJson),
     ("recoil_sum", .int e.sums.recoil),
     ("ergonomics_sum", .int e.sums.ergonomics),
     ("selections", Selection.listToJson e.selections)]

def CacheEntry.ofJson? (v : Json) : Option CacheEntry := do
  let ms ← v.record? ["item_id", "build_type", "recoil_sum", "ergonomics_sum", "selections"] []
  return {
    itemId := ← ms.required? "item_id" Json.text?
    stat := ← ms.required? "build_type" Stat.ofJson?
    sums := {
      recoil := ← ms.required? "recoil_sum" Json.int64?
      ergonomics := ← ms.required? "ergonomics_sum" Json.int64? }
    selections := ← ms.required? "selections" (Json.listOf? Selection.ofJson?) }

/-! ### Records of the store -/

/-- The JSON form of a result that may be missing. -/
def BuildResult.optionToJson : Option BuildResult → Json
  | none => .null
  | some r => r.toJson

def BuildRecord.toJson (b : BuildRecord) : Json :=
  .object
    [("build_id", .text b.id),
     ("item_id", .text b.itemId),
     ("build_type", b.stat.toJson),
     ("data_version", .text b.version),
     ("constraints", b.constraints.toJson),
     ("status", b.status.toJson),
     ("result", BuildResult.optionToJson b.result),
     ("error_message", .ofOption b.error),
     ("created_at", .text b.createdAt),
     ("updated_at", .text b.updatedAt)]

def BuildRecord.ofJson? (v : Json) : Option BuildRecord := do
  let ms ← v.record?
    ["build_id", "item_id", "build_type", "data_version", "constraints", "status", "result",
     "error_message", "created_at", "updated_at"] []
  return {
    id := ← ms.required? "build_id" Json.text?
    itemId := ← ms.required? "item_id" Json.text?
    stat := ← ms.required? "build_type" Stat.ofJson?
    version := ← ms.required? "data_version" Json.text?
    constraints := ← ms.required? "constraints" Constraints.ofJson?
    status := ← ms.required? "status" BuildStatus.ofJson?
    result := ← ms.optional? "result" BuildResult.ofJson?
    error := ← ms.optional? "error_message" Json.text?
    createdAt := ← ms.required? "created_at" Json.text?
    updatedAt := ← ms.required? "updated_at" Json.text? }

def SubtreeEntry.toJson (e : SubtreeEntry) : Json :=
  .object
    [("item_id", .text e.itemId),
     ("build_type", e.stat.toJson),
     ("constraints", e.constraints.toJson),
     ("data_version", .text e.version),
     ("evaluated_depth", .int e.depth),
     ("result", e.result.toJson)]

def SubtreeEntry.ofJson? (v : Json) : Option SubtreeEntry := do
  let ms ← v.record?
    ["item_id", "build_type", "constraints", "data_version", "evaluated_depth", "result"] []
  return {
    itemId := ← ms.required? "item_id" Json.text?
    stat := ← ms.required? "build_type" Stat.ofJson?
    constraints := ← ms.required? "constraints" Constraints.ofJson?
    version := ← ms.required? "data_version" Json.text?
    depth := ← ms.required? "evaluated_depth" (Json.natUpTo? 4294967295)
    result := ← ms.required? "result" BuildResult.ofJson? }

def Job.toJson (j : Job) : Json :=
  .object
    [("job_id", .text j.id),
     ("item_id", .text j.itemId),
     ("build_type", j.stat.toJson),
     ("constraints", j.constraints.toJson),
     ("priority", .int j.priority),
     ("status", j.status.toJson),
     ("created_at", .text j.createdAt),
     ("started_at", .ofOption j.startedAt),
     ("completed_at", .ofOption j.completedAt),
     ("error_message", .ofOption j.error)]

def Job.ofJson? (v : Json) : Option Job := do
  let ms ← v.record?
    ["job_id", "item_id", "build_type", "constraints", "priority", "status", "created_at",
     "started_at", "completed_at", "error_message"] []
  return {
    id := ← ms.required? "job_id" Json.text?
    itemId := ← ms.required? "item_id" Json.text?
    stat := ← ms.required? "build_type" Stat.ofJson?
    constraints := ← ms.required? "constraints" Constraints.ofJson?
    priority := ← ms.required? "priority" Json.int64?
    status := ← ms.required? "status" JobStatus.ofJson?
    createdAt := ← ms.required? "created_at" Json.text?
    startedAt := ← ms.optional? "started_at" Json.text?
    completedAt := ← ms.optional? "completed_at" Json.text?
    error := ← ms.optional? "error_message" Json.text? }

/-! ### Records of the catalogue -/

def Item.toJson (item : Item) : Json :=
  .object
    [("id", .text item.id),
     ("name", .text item.name),
     ("kind", item.kind.toJson),
     ("recoil_modifier", .int item.modifiers.recoil),
     ("ergonomics_modifier", .int item.modifiers.ergonomics)]

def Item.ofJson? (v : Json) : Option Item := do
  let ms ← v.record? ["id", "name", "kind", "recoil_modifier", "ergonomics_modifier"] []
  return {
    id := ← ms.required? "id" Json.text?
    name := ← ms.required? "name" Json.text?
    kind := ← ms.required? "kind" ItemKind.ofJson?
    modifiers := {
      recoil := ← ms.required? "recoil_modifier" Json.int64?
      ergonomics := ← ms.required? "ergonomics_modifier" Json.int64? } }

def Offer.toJson (o : Offer) : Json :=
  .object
    [("trader", o.trader.toJson),
     ("min_level", .int o.minLevel),
     ("price", .int o.price)]

def Offer.ofJson? (v : Json) : Option Offer := do
  let ms ← v.record? ["trader", "min_level", "price"] []
  return {
    trader := ← ms.required? "trader" Trader.ofJson?
    minLevel := ← ms.required? "min_level" (Json.natUpTo? 255)
    price := ← ms.required? "price" Json.int64? }

end Gunsmith
