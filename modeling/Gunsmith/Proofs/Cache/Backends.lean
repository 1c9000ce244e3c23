/-
  The two backends of a cache are interchangeable.

  A family of caches has a member for each of several versions of the catalogue.  If its
  members keep their entries in memory, each has entries of its own, under one text for
  item, stat and levels.  If they keep them in a table, all share the table of one store,
  which has columns for item, stat, levels and version.  Whatever calls are made on the
  members, both families answer alike and count alike (`CacheFamily.interchangeable`), as
  long as the versions are different and only a family of one member is cleared: a cache in
  the store that is cleared forgets what the others have entered.

  The text in memory is not escaped, and names of items may contain the mark that separates
  its parts.  Still it determines all three of them (`Cache.key_eq_key_iff`), because the
  levels are written without the mark, and the two stats end in different letters.
-/
import Gunsmith.Proofs.Cache
import Gunsmith.Proofs.Constraints
import Gunsmith.Proofs.Store.Isolated
import Gunsmith.Store.Schema
import Mathlib.Logic.Function.Basic

namespace Gunsmith

namespace Cache

/-! ### Keys -/

/-- The text that ends a key after the last mark is that of the levels. -/
theorem levels_of_key_eq {id id' : String} {stat stat' : Stat} {levels levels' : TraderLevels}
    (h : key id stat levels = key id' stat' levels') : levels.key = levels'.key := by
  have hreverse : ∀ (id : String) (stat : Stat) (levels : TraderLevels),
      (key id stat levels).toList.reverse =
        levels.key.toList.reverse ++ '|' :: (id ++ ("|" ++ stat.name)).toList.reverse := by
    intro id stat levels
    have hmark : "|".toList = ['|'] := rfl
    rw [key_eq, String.toList_append, String.toList_append (s := "|") (t := levels.key), hmark,
      List.reverse_append, List.reverse_append, List.append_assoc]
    rfl
  have hno : ∀ levels : TraderLevels, '|' ∉ levels.key.toList.reverse := fun levels hmem =>
    levels.bar_not_mem_key (List.mem_reverse.mp hmem)
  have heq : (key id stat levels).toList.reverse = (key id' stat' levels').toList.reverse := by
    rw [h]
  rw [hreverse, hreverse] at heq
  have hlevels := (Text.eq_of_append_cons (hno levels) (hno levels') heq).1
  exact String.toList_inj.mp (List.reverse_inj.mp hlevels)

/-- **The text in memory tells apart** what the columns in the store tell apart. -/
theorem key_eq_key_iff {id id' : String} {stat stat' : Stat} {levels levels' : TraderLevels} :
    key id stat levels = key id' stat' levels' ↔
      id = id' ∧ stat = stat' ∧ levels.key = levels'.key := by
  constructor
  · intro h
    have hlevels := levels_of_key_eq h
    obtain rfl := TraderLevels.key_injective hlevels
    obtain ⟨hid, hstat⟩ := key_inj h
    exact ⟨hid, hstat, rfl⟩
  · rintro ⟨rfl, rfl, hlevels⟩
    rw [key_eq, key_eq, hlevels]

/-- What is found in memory after an entry was written: that entry under its key, and what was found
before under other keys. -/
theorem getElem?_insert_key (entries : CacheEntries) (entry : CacheEntry) (levels : TraderLevels)
    (id : String) (stat : Stat) (levels' : TraderLevels) :
    (entries.insert (key entry.itemId entry.stat levels) entry)[key id stat levels']? =
      if entry.itemId = id ∧ entry.stat = stat ∧ levels.key = levels'.key then some entry
      else entries[key id stat levels']? := by
  rw [Std.TreeMap.getElem?_insert]
  refine if_congr ?_ rfl rfl
  rw [Std.LawfulEqCmp.compare_eq_iff_eq, key_eq_key_iff]

end Cache

namespace Cache

/-! ### Calls on one cache -/

variable {store store' : Store} {cache : Cache} {entries : CacheEntries}

@[simp]
theorem version_countLookup (cache : Cache) (found : Bool) :
    (cache.countLookup found).version = cache.version := by
  cases found <;> rfl

@[simp]
theorem entries_countLookup (cache : Cache) (found : Bool) :
    (cache.countLookup found).entries = cache.entries := by
  cases found <;> rfl

/-- What is counted does not depend on where the entries are kept. -/
theorem stats_countLookup_congr {cache cache' : Cache} (h : cache.stats = cache'.stats)
    (found : Bool) : (cache.countLookup found).stats = (cache'.countLookup found).stats := by
  cases found <;> simp [countLookup, h]

theorem stats_countWrite_congr {cache cache' : Cache} (h : cache.stats = cache'.stats) :
    cache.countWrite.stats = cache'.countWrite.stats := by
  simp [countWrite, h]

theorem get_memory (h : cache.entries = some entries) (id : String) (stat : Stat)
    (c : Constraints) :
    get id stat c (store, cache) = (.ok entries[key id stat c.levels]?, store,
      cache.countLookup (entries[key id stat c.levels]?).isSome) := by
  unfold get
  simp only [h]

theorem get_table (h : cache.entries = none) {id : String} {stat : Stat} {c : Constraints}
    {entry : Option CacheEntry}
    (hfound : store.isolated? id stat c.levels cache.version = .ok entry) :
    get id stat c (store, cache) = (.ok entry, store, cache.countLookup entry.isSome) := by
  unfold get
  simp only [h, hfound]

theorem set_memory (h : cache.entries = some entries) (c : Constraints) (entry : CacheEntry) :
    set c entry (store, cache) = (.ok (), store, { cache.countWrite with
      entries := some (entries.insert (key entry.itemId entry.stat c.levels) entry) }) := by
  unfold set
  simp only [h]

theorem set_table (h : cache.entries = none) {c : Constraints} {entry : CacheEntry}
    (hcall : (Transaction.setIsolated c.levels cache.version entry).call store =
      (.ok (), store')) :
    set c entry (store, cache) = (.ok (), store', cache.countWrite) := by
  unfold set
  simp only [h, hcall]

theorem clear_memory (h : cache.entries = some entries) :
    clear (store, cache) = (.ok (), store, { cache with entries := some ∅ }) := by
  unfold clear
  simp only [h]

theorem clear_table (h : cache.entries = none)
    (hcall : Transaction.clearIsolated.call store = (.ok (), store')) :
    clear (store, cache) = (.ok (), store', cache) := by
  unfold clear
  simp only [h, hcall]

end Cache

/-! ### Families -/

/-- A call on a member of a family of caches. -/
inductive CacheCall (ι : Type) where
  | get (i : ι) (itemId : String) (stat : Stat) (c : Constraints)
  | set (i : ι) (c : Constraints) (entry : CacheEntry)
  | clear (i : ι)

/-- What a call on a cache answers. -/
inductive CacheAnswer where
  /-- An entry, or none. -/
  | found (entry : Option CacheEntry)
  /-- Nothing: the call was made. -/
  | made
  /-- The call failed. -/
  | failed (e : StoreError)
deriving DecidableEq

/-- Caches on one store. -/
structure CacheFamily (ι : Type) where
  store : Store
  member : ι → Cache

namespace CacheFamily

variable {ι : Type}

/-- A family of unused caches on a store, with a member for each of some versions. -/
def create (backend : CacheBackend) (versions : ι → String) (store : Store) : CacheFamily ι where
  store := store
  member i := Cache.create backend (versions i)

variable [DecidableEq ι]

/-- The family after a call on one of its members. -/
def put (family : CacheFamily ι) (i : ι) (store : Store) (cache : Cache) : CacheFamily ι :=
  ⟨store, Function.update family.member i cache⟩

/-- Makes a call. -/
def run (call : CacheCall ι) (family : CacheFamily ι) : CacheAnswer × CacheFamily ι :=
  match call with
  | .get i itemId stat c =>
    match Cache.get itemId stat c (family.store, family.member i) with
    | (.ok entry, store, cache) => (.found entry, family.put i store cache)
    | (.error e, store, cache) => (.failed e, family.put i store cache)
  | .set i c entry =>
    match Cache.set c entry (family.store, family.member i) with
    | (.ok (), store, cache) => (.made, family.put i store cache)
    | (.error e, store, cache) => (.failed e, family.put i store cache)
  | .clear i =>
    match Cache.clear (family.store, family.member i) with
    | (.ok (), store, cache) => (.made, family.put i store cache)
    | (.error e, store, cache) => (.failed e, family.put i store cache)

/-- What some calls answer, and the family after them. -/
def runAll : List (CacheCall ι) → CacheFamily ι → List CacheAnswer × CacheFamily ι
  | [], family => ([], family)
  | call :: calls, family =>
    let (answer, family) := family.run call
    let (answers, family) := runAll calls family
    (answer :: answers, family)

/-! ### Both families side by side -/

/-- A family in memory and one in a table hold the same entries and have counted the same. -/
structure Alike (versions : ι → String) (a b : CacheFamily ι) : Prop where
  stats : ∀ i, (a.member i).stats = (b.member i).stats
  version : ∀ i, (b.member i).version = versions i
  tabular : ∀ i, (b.member i).entries = none
  table : ∃ rows, b.store.isolated = some rows
  entries : ∀ i, ∃ entries, (a.member i).entries = some entries ∧ ∀ id stat levels,
    b.store.isolated? id stat levels (versions i) = .ok entries[Cache.key id stat levels]?

variable {versions : ι → String} {a b : CacheFamily ι} {i : ι}

omit [DecidableEq ι] in
/-- Unused families are alike. -/
theorem alike_create {store : Store} (hstore : store.isolated = some []) :
    Alike versions (create .memory versions store) (create .table versions store) where
  stats _ := rfl
  version _ := rfl
  tabular _ := rfl
  table := ⟨[], hstore⟩
  entries i := by
    refine ⟨∅, rfl, fun id stat levels => ?_⟩
    rw [Std.TreeMap.getElem?_emptyc]
    exact Transaction.isolated?_eq hstore id stat levels (versions i)

/-- Families stay alike if a member of each is replaced, and the store changes for that member at
most. -/
theorem Alike.put (h : Alike versions a b) {store store' : Store} {cache cache' : Cache}
    (hstats : cache.stats = cache'.stats) (hversion : cache'.version = versions i)
    (htabular : cache'.entries = none) (htable : ∃ rows, store'.isolated = some rows)
    (hentries : ∃ entries, cache.entries = some entries ∧ ∀ id stat levels,
      store'.isolated? id stat levels (versions i) = .ok entries[Cache.key id stat levels]?)
    (hothers : ∀ j, j ≠ i → ∀ id stat levels,
      store'.isolated? id stat levels (versions j) =
        b.store.isolated? id stat levels (versions j)) :
    Alike versions (a.put i store cache) (b.put i store' cache') := by
  have hmember : ∀ (family : CacheFamily ι) store cache j,
      (family.put i store cache).member j = if j = i then cache else family.member j := by
    intro family store cache j
    exact Function.update_apply family.member i cache j
  refine ⟨fun j => ?_, fun j => ?_, fun j => ?_, htable, fun j => ?_⟩
  · rw [hmember, hmember]
    split_ifs
    · exact hstats
    · exact h.stats j
  · rw [hmember]
    split_ifs with hij
    · rw [hij, hversion]
    · exact h.version j
  · rw [hmember]
    split_ifs
    · exact htabular
    · exact h.tabular j
  · rw [hmember]
    split_ifs with hij
    · rw [hij]
      exact hentries
    · obtain ⟨entries, hmemory, hsame⟩ := h.entries j
      exact ⟨entries, hmemory, fun id stat levels =>
        (hothers j hij id stat levels).trans (hsame id stat levels)⟩

/-- **A call** has the same answer in both families, does not fail, and leaves the families alike. -/
theorem Alike.run (h : Alike versions a b) (hversions : Function.Injective versions)
    (call : CacheCall ι) (hclear : ∀ i, call = .clear i → Subsingleton ι) :
    (a.run call).1 = (b.run call).1 ∧ (∀ e, (b.run call).1 ≠ .failed e) ∧
      Alike versions (a.run call).2 (b.run call).2 := by
  obtain ⟨rows, hrows⟩ := h.table
  cases call with
  | get i id stat c =>
    obtain ⟨entries, hmemory, hsame⟩ := h.entries i
    have hfound : b.store.isolated? id stat c.levels (b.member i).version =
        .ok entries[Cache.key id stat c.levels]? := by
      rw [h.version]
      exact hsame id stat c.levels
    unfold CacheFamily.run
    dsimp only
    rw [Cache.get_memory hmemory, Cache.get_table (h.tabular i) hfound]
    refine ⟨rfl, nofun, h.put (Cache.stats_countLookup_congr (h.stats i) _) ?_ ?_ ⟨rows, hrows⟩
      ⟨entries, ?_, hsame⟩ fun _ _ _ _ _ => rfl⟩
    · rw [Cache.version_countLookup, h.version]
    · rw [Cache.entries_countLookup, h.tabular]
    · rw [Cache.entries_countLookup, hmemory]
  | set i c entry =>
    obtain ⟨entries, hmemory, hsame⟩ := h.entries i
    obtain ⟨store', rows', hcall, hrows', hread⟩ :=
      Transaction.isolated?_setIsolated hrows c.levels (b.member i).version entry
    unfold CacheFamily.run
    dsimp only
    rw [Cache.set_memory hmemory, Cache.set_table (h.tabular i) hcall]
    refine ⟨rfl, nofun, h.put (Cache.stats_countWrite_congr (h.stats i)) (h.version i)
      (h.tabular i) ⟨rows', hrows'⟩ ⟨_, rfl, fun id stat levels => ?_⟩
      fun j hj id stat levels => ?_⟩
    · rw [hread, Cache.getElem?_insert_key, hsame]
      simp only [h.version, and_true]
      split_ifs <;> rfl
    · rw [hread, if_neg]
      rintro ⟨-, -, -, hversion⟩
      rw [h.version] at hversion
      exact hj (hversions hversion).symm
  | clear i =>
    obtain ⟨entries, hmemory, -⟩ := h.entries i
    obtain ⟨store', hcall, hrows', hread⟩ := Transaction.isolated?_clearIsolated hrows
    have hsingle := hclear i rfl
    unfold CacheFamily.run
    dsimp only
    rw [Cache.clear_memory hmemory, Cache.clear_table (h.tabular i) hcall]
    refine ⟨rfl, nofun, h.put (h.stats i) (h.version i) (h.tabular i) ⟨[], hrows'⟩
      ⟨∅, rfl, fun id stat levels => ?_⟩ fun j hj => absurd (Subsingleton.elim j i) hj⟩
    rw [hread, Std.TreeMap.getElem?_emptyc]

/-- What any calls answer and leave. -/
theorem Alike.runAll (h : Alike versions a b) (hversions : Function.Injective versions)
    {calls : List (CacheCall ι)} (hclear : ∀ i, CacheCall.clear i ∈ calls → Subsingleton ι) :
    (a.runAll calls).1 = (b.runAll calls).1 ∧ (∀ e, .failed e ∉ (b.runAll calls).1) ∧
      Alike versions (a.runAll calls).2 (b.runAll calls).2 := by
  induction calls generalizing a b with
  | nil => exact ⟨rfl, fun _ => List.not_mem_nil, h⟩
  | cons call calls ih =>
    obtain ⟨hanswer, hmade, halike⟩ := h.run hversions call fun i hi =>
      hclear i (hi ▸ List.mem_cons_self)
    obtain ⟨hanswers, hallMade, hfinal⟩ := ih halike fun i hi =>
      hclear i (List.mem_cons_of_mem _ hi)
    refine ⟨congrArg₂ List.cons hanswer hanswers, fun e hmem => ?_, hfinal⟩
    rcases List.mem_cons.mp hmem with hfirst | hrest
    · exact hmade e hfirst.symm
    · exact hallMade e hrest

/-- What makes the two backends interchangeable for some calls. -/
structure Interchangeable (versions : ι → String) (store : Store) (calls : List (CacheCall ι)) :
    Prop where
  /-- Every call has the same answer: a question finds the same entry, or none. -/
  answers : ((create .memory versions store).runAll calls).1 =
    ((create .table versions store).runAll calls).1
  /-- No call fails. -/
  made : ∀ e, .failed e ∉ ((create .table versions store).runAll calls).1
  /-- Every member counts the same questions answered, questions not answered, and entries
  written. -/
  stats : ∀ i, (((create .memory versions store).runAll calls).2.member i).stats =
    (((create .table versions store).runAll calls).2.member i).stats
  /-- The text in memory is the same if and only if the columns in the store are: the item, the
  stat, and the levels, which are determined by how they are written. -/
  keys : ∀ (id id' : String) (stat stat' : Stat) (levels levels' : TraderLevels),
    (Cache.key id stat levels = Cache.key id' stat' levels' ↔
      id = id' ∧ stat = stat' ∧ levels.key = levels'.key) ∧
    (levels.key = levels'.key ↔ levels = levels')

/-- **The two backends are interchangeable**: caches for different versions answer and count alike,
whether they keep their entries in memory or all together in a table that is empty in the beginning,
whatever calls are made on them.  Where there are several caches, none of them is cleared. -/
theorem interchangeable {store : Store} {calls : List (CacheCall ι)}
    (hversions : Function.Injective versions) (hstore : store.isolated = some [])
    (hclear : ∀ i, CacheCall.clear i ∈ calls → Subsingleton ι) :
    Interchangeable versions store calls := by
  obtain ⟨hanswers, hmade, halike⟩ := (alike_create hstore).runAll hversions hclear
  refine ⟨hanswers, hmade, halike.stats, fun _ _ _ _ _ _ => ⟨Cache.key_eq_key_iff, ?_⟩⟩
  exact ⟨TraderLevels.key_injective, congrArg _⟩

/-- The versions of two caches. -/
def sampleVersions : Bool → String
  | false => "v1"
  | true => "v2"

/-- An entry for an item whose name looks like a key. -/
def sampleEntry (recoil : Int) : CacheEntry :=
  ⟨"m1|recoil", .recoil, ⟨recoil, 3⟩, [⟨"m1|recoil", "s", "mod_pad", some "p", some "\"Pad\", a=4"⟩]⟩

/-- The same entry is written for both versions and overwritten for one, and asked for under three
keys. -/
def sampleCalls : List (CacheCall Bool) :=
  let c : Constraints := .ofLevels (.uniform 4)
  [.set false c (sampleEntry 1), .set true c (sampleEntry 2), .set false c (sampleEntry 3),
    .get false "m1|recoil" .recoil c, .get true "m1|recoil" .recoil c, .get false "m1" .recoil c]

theorem interchangeable_sample :
    Function.Injective sampleVersions ∧ Store.fresh.isolated = some [] ∧
      (∀ i, CacheCall.clear i ∈ sampleCalls → Subsingleton Bool) ∧
      ((create .memory sampleVersions .fresh).runAll sampleCalls).1 =
        [.made, .made, .made, .found (some (sampleEntry 3)), .found (some (sampleEntry 2)),
          .found none] ∧
      Interchangeable sampleVersions .fresh sampleCalls := by
  have hversions : Function.Injective sampleVersions := by
    intro i j h
    cases i <;> cases j <;> first | rfl | exact absurd h (by decide)
  have hclear : ∀ i, CacheCall.clear i ∈ sampleCalls → Subsingleton Bool := by
    intro i hi
    simp [sampleCalls] at hi
  exact ⟨hversions, rfl, hclear, by decide +kernel, interchangeable hversions rfl hclear⟩

end CacheFamily

end Gunsmith
