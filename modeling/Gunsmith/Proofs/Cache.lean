/-
  What a cache may be relied on for.

  A cache answers with what was entered last for the item and the stat
  (`CacheAccess.Lawful`).  A cache that keeps its entries in memory keeps them under one
  text for each item, stat and assignment of levels.  The name of an item may contain
  the mark that separates the parts of this text, and still the text determines the item
  and the stat (`Cache.key_inj`), so the cache is lawful (`Cache.lawful_memory`).
-/
import Gunsmith.Cache
import Mathlib.Tactic.SplitIfs

namespace Gunsmith

/-- Under the constraints, the cache does not fail, and it answers with what was entered last for
the item and the stat.  This is what `contents` reads off the memory. -/
structure CacheAccess.Lawful {σ : Type} (cache : CacheAccess σ) (c : Constraints) (ok : σ → Prop)
    (contents : σ → String → Stat → Option CacheEntry) : Prop where
  get : ∀ s, ok s → ∀ id stat, ∃ s', cache.get id stat c s = (.ok (contents s id stat), s') ∧
    ok s' ∧ contents s' = contents s
  set : ∀ s, ok s → ∀ entry, ∃ s', cache.set c entry s = (.ok (), s') ∧ ok s' ∧
    ∀ id stat, contents s' id stat =
      if id = entry.itemId ∧ stat = entry.stat then some entry else contents s id stat

namespace Cache

/-! ### Keys -/

theorem key_eq (id : String) (stat : Stat) (levels : TraderLevels) :
    key id stat levels = id ++ ("|" ++ stat.name) ++ ("|" ++ levels.key) := by
  unfold key
  simp only [String.append_assoc, toString]

/-- Under given levels, the key determines the item and the stat. -/
theorem key_inj {id id' : String} {stat stat' : Stat} {levels : TraderLevels}
    (h : key id stat levels = key id' stat' levels) : id = id' ∧ stat = stat' := by
  rw [key_eq, key_eq, String.append_left_inj] at h
  have hstat : stat = stat' := by
    -- The names of the two stats end in different letters.
    have hlast := congrArg (fun text => text.toList.getLast?) h
    simp only [String.toList_append, List.getLast?_append] at hlast
    cases stat with
    | recoil =>
      cases stat' with
      | recoil => rfl
      | ergonomics =>
        have hletter : some 'l' = some 's' := hlast
        exact absurd hletter (by decide)
    | ergonomics =>
      cases stat' with
      | recoil =>
        have hletter : some 's' = some 'l' := hlast
        exact absurd hletter (by decide)
      | ergonomics => rfl
  subst hstat
  exact ⟨(String.append_left_inj _).mp h, rfl⟩

/-! ### Caches in memory -/

/-- What a cache holds in memory for an item and a stat, under given levels. -/
def held (levels : TraderLevels) (s : Store × Cache) (id : String) (stat : Stat) :
    Option CacheEntry :=
  s.2.entries.bind fun entries => entries[key id stat levels]?

/-- A cache that keeps its entries in memory is lawful. -/
theorem lawful_memory (c : Constraints) :
    access.Lawful c (fun s => s.2.entries.isSome) (held c.levels) where
  get := by
    rintro ⟨store, version, stats, _ | entries⟩ hmemory id stat
    · exact absurd hmemory Bool.false_ne_true
    · refine ⟨(store, countLookup ⟨version, stats, some entries⟩
        (entries[key id stat c.levels]?).isSome), rfl, ?_, ?_⟩
      · unfold countLookup
        split_ifs <;> rfl
      · unfold countLookup
        split_ifs <;> rfl
  set := by
    rintro ⟨store, version, stats, _ | entries⟩ hmemory entry
    · exact absurd hmemory Bool.false_ne_true
    refine ⟨(store, { countWrite ⟨version, stats, some entries⟩ with
      entries := some (entries.insert (key entry.itemId entry.stat c.levels) entry) }),
      rfl, rfl, ?_⟩
    intro id stat
    show (entries.insert (key entry.itemId entry.stat c.levels) entry)[key id stat c.levels]? =
      if id = entry.itemId ∧ stat = entry.stat then some entry
      else entries[key id stat c.levels]?
    rw [Std.TreeMap.getElem?_insert]
    by_cases hkey : key entry.itemId entry.stat c.levels = key id stat c.levels
    · obtain ⟨hid, hstat⟩ := key_inj hkey
      rw [if_pos (Std.LawfulEqCmp.compare_eq_iff_eq.mpr hkey), if_pos ⟨hid.symm, hstat.symm⟩]
    · have hcmp : compare (key entry.itemId entry.stat c.levels) (key id stat c.levels) ≠ .eq :=
        fun heq => hkey (Std.LawfulEqCmp.compare_eq_iff_eq.mp heq)
      have hne : ¬ (id = entry.itemId ∧ stat = entry.stat) := by
        rintro ⟨rfl, rfl⟩
        exact hkey rfl
      rw [if_neg hcmp, if_neg hne]

/-- An unused cache in memory holds nothing. -/
theorem held_create (levels : TraderLevels) (store : Store) (version id : String) (stat : Stat) :
    held levels (store, create .memory version) id stat = none :=
  Std.TreeMap.getElem?_emptyc

end Cache

end Gunsmith
