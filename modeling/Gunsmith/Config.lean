/-
  The configuration of the evaluation.

  Every setting has a key and a default.  A setting that is there has to read: there is
  no falling back to the default.  Settings are read one after the other, and when all
  of them read, their ranges are checked in the same order.
-/
import Gunsmith.Cache
import Gunsmith.Decimal.Numeral
import Gunsmith.Decimal.Shortest
import Gunsmith.Service
import Gunsmith.Store.Settings

namespace Gunsmith

/-- A failure to get a configuration. -/
inductive ConfigError where
  | storage (cause : StoreError)
  | invalidValue (key value detail : String)
deriving DecidableEq, Inhabited

/-- The wording of a failure to get a configuration. -/
def ConfigError.message : ConfigError → String
  | .storage cause =>
    let reason := cause.message
    s!"配置读取失败: {reason}"
  | .invalidValue key value detail => s!"配置值无效 ({key}={value}): {detail}"

/-- The configuration of the evaluation. -/
structure Config where
  /-- How many workers there are for each processor. -/
  factor : Binary64
  /-- How long the queue is left alone when it has nothing to claim, in milliseconds. -/
  pollMillis : Nat
  /-- How many claimed jobs may wait for a worker; as many as there are workers if not set. -/
  capacity : Option Nat
  /-- The depth down to which candidates are considered. -/
  depth : Nat
  /-- The version of the catalogue. -/
  version : String
  backend : CacheBackend
deriving Inhabited

namespace Config

/-! ### Keys and defaults -/

def factorKey : String := "worker.parallelism_factor"

def pollKey : String := "worker.poll_interval_ms"

def capacityKey : String := "worker.channel_capacity"

def depthKey : String := "evaluation.max_tree_depth"

def versionKey : String := "catalog.data_version"

def backendKey : String := "cache.backend"

/-- The configuration when nothing is set. -/
def standard : Config where
  factor := .ofNat 1
  pollMillis := 1000
  capacity := none
  depth := CandidateTree.defaultDepth
  version := Cache.defaultVersion
  backend := .table

/-- The largest number of 64 bits. -/
def maxWord : Nat := 18446744073709551615

/-! ### Reading -/

/-- Reads a setting that is there; margins do not matter, but a complaint quotes them. -/
def parseSetting {α : Type} (key : String) (parse : String → Except String α) (raw : String) :
    Except ConfigError α :=
  (parse (Text.trim raw)).mapError (.invalidValue key raw)

/-- The value of a setting, if it is there. -/
def setting? {α : Type} (s : Store) (key : String) (parse : String → Except String α) :
    Except ConfigError (Option α) := do
  match ← (s.setting? key).mapError .storage with
  | some raw => return some (← parseSetting key parse raw)
  | none => return none

/-- The value of a setting, or its default. -/
def settingOr {α : Type} (s : Store) (key : String) (parse : String → Except String α)
    (default : α) : Except ConfigError α := do
  return (← setting? s key parse).getD default

/-- Accepts a configuration in range, and otherwise names the first setting that is not. -/
def validate (config : Config) : Except ConfigError Unit := do
  if ¬ config.factor.IsPositive then
    throw (.invalidValue factorKey config.factor.text "必须为正数")
  if config.pollMillis = 0 then
    throw (.invalidValue pollKey "0" "必须大于 0")
  if config.capacity = some 0 then
    throw (.invalidValue capacityKey "0" "必须大于 0")
  if config.depth = 0 then
    throw (.invalidValue depthKey "0" "必须大于 0")
  if Text.isAllBlank config.version then
    throw (.invalidValue versionKey "" "不能为空")

/-- The configuration that is set in a store. -/
def load (s : Store) : Except ConfigError Config := do
  let config : Config := {
    factor := ← settingOr s factorKey Numeral.binary64 standard.factor
    pollMillis := ← settingOr s pollKey (Numeral.nat maxWord) standard.pollMillis
    capacity := ← setting? s capacityKey (Numeral.nat maxWord)
    depth := ← settingOr s depthKey (Numeral.nat maxDepth) standard.depth
    version := ← (s.settingOr versionKey standard.version).mapError .storage
    backend := ← settingOr s backendKey CacheBackend.parse standard.backend }
  config.validate
  return config

/-! ### What follows from it -/

/-- The number of workers on a machine with some processors: at least one. -/
def workers (config : Config) (processors : Nat) : Nat :=
  max 1 (((Binary64.ofNat processors).mul config.factor).roundToNat maxWord)

/-- The number of claimed jobs that may wait for that many workers: at least one. -/
def effectiveCapacity (config : Config) (workers : Nat) : Nat :=
  max 1 (config.capacity.getD workers)

/-- The service that the configuration asks for. -/
def service (config : Config) : Service :=
  .ofStore config.depth config.version

end Config

end Gunsmith
