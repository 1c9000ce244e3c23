/-
  Caches of isolated solutions.

  A cache serves one version of the catalogue and keeps the isolated solutions of items,
  apart for each stat and each assignment of trader levels.  It keeps them in memory,
  under one text that is composed of item, stat and levels (`Cache.key`), or in a table
  of the store, under columns of their own.  Both count the questions answered, the
  questions not answered, and the entries written.
-/
import Gunsmith.Search.Solver
import Gunsmith.Store.Isolated
import Std.Data.TreeMap

namespace Gunsmith

/-- Where a cache keeps its entries. -/
inductive CacheBackend where
  | memory
  | table
deriving DecidableEq, Inhabited

namespace CacheBackend

/-- The keyword of a backend. -/
def name : CacheBackend → String
  | .memory => "memory"
  | .table => "sqlite"

/-- Reads the keyword of a backend; margins and letter case do not matter. -/
def parse (text : String) : Except String CacheBackend :=
  let word := Text.lower (Text.trim text)
  if word = "memory" then .ok .memory
  else if word = "sqlite" then .ok .table
  else .error s!"未知的缓存后端: {word}"

end CacheBackend

/-- What a cache was used for. -/
structure CacheStats where
  hits : Nat
  misses : Nat
  writes : Nat
deriving DecidableEq, Inhabited

/-- The entries of a cache that keeps them itself, by key. -/
abbrev CacheEntries := Std.TreeMap String CacheEntry

/-- A cache of isolated solutions for one version of the catalogue. -/
structure Cache where
  version : String
  stats : CacheStats
  /-- The entries kept in memory; none for a cache that keeps them in the store. -/
  entries : Option CacheEntries

namespace Cache

/-- The version of the catalogue where none is given. -/
def defaultVersion : String := "0"

/-- An unused cache. -/
def create (backend : CacheBackend) (version : String) : Cache where
  version := version
  stats := ⟨0, 0, 0⟩
  entries := match backend with
    | .memory => some ∅
    | .table => none

/-- The key of an entry in memory: `m1|recoil|Prapor=4,Mechanic=3`. -/
def key (itemId : String) (stat : Stat) (levels : TraderLevels) : String :=
  s!"{itemId}|{stat.name}|{levels.key}"

/-- Counts a question, answered or not. -/
def countLookup (cache : Cache) (found : Bool) : Cache :=
  if found then { cache with stats := { cache.stats with hits := cache.stats.hits + 1 } }
  else { cache with stats := { cache.stats with misses := cache.stats.misses + 1 } }

/-- Counts an entry written. -/
def countWrite (cache : Cache) : Cache :=
  { cache with stats := { cache.stats with writes := cache.stats.writes + 1 } }

/-- Calls on a cache, with the store at hand. -/
abbrev Call (α : Type) := StateM (Store × Cache) (Except StoreError α)

/-- Looks an isolated solution up; of the constraints, only the levels matter. -/
def get (itemId : String) (stat : Stat) (c : Constraints) : Call (Option CacheEntry) :=
  fun (store, cache) =>
    match cache.entries with
    | some entries =>
      let entry := entries[key itemId stat c.levels]?
      (.ok entry, store, cache.countLookup entry.isSome)
    | none =>
      match store.isolated? itemId stat c.levels cache.version with
      | .ok entry => (.ok entry, store, cache.countLookup entry.isSome)
      | .error e => (.error e, store, cache)

/-- Keeps an isolated solution; of the constraints, only the levels matter. -/
def set (c : Constraints) (entry : CacheEntry) : Call Unit :=
  fun (store, cache) =>
    match cache.entries with
    | some entries =>
      let entries := entries.insert (key entry.itemId entry.stat c.levels) entry
      (.ok (), store, { cache.countWrite with entries := some entries })
    | none =>
      match Transaction.call (.setIsolated c.levels cache.version entry) store with
      | (.ok (), store) => (.ok (), store, cache.countWrite)
      | (.error e, store) => (.error e, store, cache)

/-- Forgets all entries; a cache in the store forgets those of other versions as well. -/
def clear : Call Unit :=
  fun (store, cache) =>
    match cache.entries with
    | some _ => (.ok (), store, { cache with entries := some ∅ })
    | none =>
      let (answer, store) := Transaction.call .clearIsolated store
      (answer, store, cache)

/-- Forgets the entries for other versions that are kept in the store, and counts them. -/
def purge : Call Nat :=
  fun (store, cache) =>
    let (answer, store) := Transaction.call (.purgeIsolated cache.version) store
    (answer, store, cache)

/-- The access that a search has. -/
def access : CacheAccess (Store × Cache) := ⟨Cache.get, Cache.set⟩

end Cache

end Gunsmith
