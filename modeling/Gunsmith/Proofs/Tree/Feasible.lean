/-
  Feasible builds.

  A choice of items is allowed (`Allowed`) if none of them is excluded and no two of them
  are in conflict.  Mounting one more item is allowed if it is not excluded itself and the
  others are still allowed once what is in conflict with it is excluded
  (`allowed_cons_iff`); this is how a search may carry the conflicts of what it mounted
  along as exclusions.  What stands at and below a conflict-free item never stands in the
  way of anything else (`Allowed.mount_of_free`).

  `Part.Feasible` says that decisions about all slots below an item make such a build, and
  `Part.reachable` is the set of totals of these builds.
-/
import Gunsmith.Proofs.Conflict
import Gunsmith.Proofs.Tree.Filling

namespace Gunsmith

/-! ### Conflict maps -/

namespace ConflictMap

/-- Conflicts hold both ways, and no item is in conflict with itself. -/
structure Mutual (m : ConflictMap) : Prop where
  comm : ∀ {a b : String}, m.Conflicts a b → m.Conflicts b a
  irrefl : ∀ a : String, ¬ m.Conflicts a a

variable {m : ConflictMap} {a b : String}

/-- An item without live conflicts is in conflict with no candidate. -/
theorem not_conflicts_of_not_live (h : ¬ m.Live a) (hb : b ∈ m.candidates) : ¬ m.Conflicts a b :=
  fun hab => h ⟨b, NameSet.mem_toList.mpr hab, hb⟩

/-- Every item that stands below the slots is a candidate of the record. -/
def Covers (m : ConflictMap) (slots : List Slot) : Prop :=
  ∀ s ∈ slots, ∀ c ∈ s.candidates, ∀ id ∈ c.ids, id ∈ m.candidates

variable {s : Slot} {ss ts : List Slot}

theorem Covers.tail (h : m.Covers (s :: ss)) : m.Covers ss :=
  fun t ht => h t (List.mem_cons_of_mem _ ht)

theorem Covers.below (h : m.Covers (s :: ss)) {c : Part} (hc : c ∈ s.candidates) :
    m.Covers c.slots := fun _ ht _ hd id hid =>
  h s List.mem_cons_self c hc id (Part.mem_ids_of_candidate ht hd hid)

theorem Covers.append (hs : m.Covers ss) (ht : m.Covers ts) : m.Covers (ss ++ ts) := by
  intro u hu
  rcases List.mem_append.mp hu with hu | hu
  · exact hs u hu
  · exact ht u hu

/-- What is mounted in the slots are candidates of the record. -/
theorem Covers.mem_candidates (h : m.Covers ss) {ds : List Decision} (hds : Fills ss ds)
    {id : String} (hid : id ∈ Decision.ids ds) : id ∈ m.candidates := by
  obtain ⟨s, hs, c, hc, hidc⟩ := hds.mem_ids_of_mounted hid
  exact h s hs c hc id hidc

end ConflictMap

/-- The conflicts of a tree hold both ways, and no item is in conflict with itself. -/
theorem Part.mutual_conflicts (part : Part) : part.declarations.symmetric.Mutual where
  comm := Declarations.symmetric_comm.mp
  irrefl _ h := (Part.conflicts_iff.mp h).1 rfl

/-! ### Allowed choices -/

/-- Items that may be chosen together: none of them is excluded, and no two are in conflict. -/
structure Allowed (m : ConflictMap) (excluded : NameSet) (ids : List String) : Prop where
  available : ∀ id ∈ ids, id ∉ excluded
  compatible : ∀ a ∈ ids, ∀ b ∈ ids, ¬ m.Conflicts a b

section Allowed

variable {m : ConflictMap} {excluded : NameSet} {ids ids' : List String} {a : String}

theorem allowed_nil : Allowed m excluded [] :=
  ⟨fun _ h => absurd h List.not_mem_nil, fun _ h => absurd h List.not_mem_nil⟩

theorem Allowed.subset (h : Allowed m excluded ids) (hsub : ids' ⊆ ids) : Allowed m excluded ids' :=
  ⟨fun id hid => h.available id (hsub hid),
    fun a ha b hb => h.compatible a (hsub ha) b (hsub hb)⟩

/-- One more item: its conflicts become exclusions for the others. -/
theorem allowed_cons_iff (hm : m.Mutual) :
    Allowed m excluded (a :: ids) ↔
      a ∉ excluded ∧ Allowed m (excluded.insertAll (m.conflictsOf a).toList) ids := by
  constructor
  · intro h
    have ha : a ∈ a :: ids := List.mem_cons_self
    refine ⟨h.available a ha, ⟨fun id hid hex => ?_, fun b hb c hc => ?_⟩⟩
    · rcases NameSet.mem_insertAll.mp hex with hex | hex
      · exact h.available id (List.mem_cons_of_mem _ hid) hex
      · exact h.compatible a ha id (List.mem_cons_of_mem _ hid) (NameSet.mem_toList.mp hex)
    · exact h.compatible b (List.mem_cons_of_mem _ hb) c (List.mem_cons_of_mem _ hc)
  · rintro ⟨ha, h⟩
    have hfar : ∀ b ∈ ids, ¬ m.Conflicts a b := fun b hb hab =>
      h.available b hb (NameSet.mem_insertAll.mpr (Or.inr (NameSet.mem_toList.mpr hab)))
    refine ⟨fun id hid => ?_, fun b hb c hc => ?_⟩
    · rcases List.mem_cons.mp hid with rfl | hid
      · exact ha
      · exact fun hex => h.available id hid (NameSet.mem_insertAll.mpr (Or.inl hex))
    · rcases List.mem_cons.mp hb with rfl | hb' <;> rcases List.mem_cons.mp hc with rfl | hc'
      · exact hm.irrefl _
      · exact hfar c hc'
      · exact fun hbc => hfar b hb' (hm.comm hbc)
      · exact h.compatible b hb' c hc'

/-- Items without live conflicts go together with any candidates. -/
theorem Allowed.append_of_free (hm : m.Mutual) (h : Allowed m excluded ids)
    (h' : Allowed m excluded ids') (hfree : ∀ id ∈ ids, ¬ m.Live id)
    (hcand : ∀ id ∈ ids', id ∈ m.candidates) : Allowed m excluded (ids ++ ids') := by
  refine ⟨fun id hid => ?_, fun a ha b hb => ?_⟩
  · rcases List.mem_append.mp hid with hid | hid
    · exact h.available id hid
    · exact h'.available id hid
  · rcases List.mem_append.mp ha with ha | ha <;> rcases List.mem_append.mp hb with hb | hb
    · exact h.compatible a ha b hb
    · exact ConflictMap.not_conflicts_of_not_live (hfree a ha) (hcand b hb)
    · exact fun hab =>
        ConflictMap.not_conflicts_of_not_live (hfree b hb) (hcand a ha) (hm.comm hab)
    · exact h'.compatible a ha b hb

/-- A conflict-free item goes together with what may be mounted below it and with what may be mounted
elsewhere. -/
theorem Allowed.mount_of_free (hm : m.Mutual) {c : Part} (hfree : c.conflictFree m = true)
    (hex : c.id ∉ excluded) (hcand : ∀ id ∈ c.ids, id ∈ m.candidates) (hsub : ids ⊆ c.ids)
    (h : Allowed m excluded ids) (h' : Allowed m excluded ids')
    (hcand' : ∀ id ∈ ids', id ∈ m.candidates) : Allowed m excluded (c.id :: (ids ++ ids')) := by
  have hlive : ∀ id ∈ c.ids, ¬ m.Live id := Part.conflictFree_iff.mp hfree
  have hown : Allowed m excluded [c.id] := by
    refine ⟨fun id hid => ?_, fun a ha b hb => ?_⟩
    · rw [List.mem_singleton.mp hid]
      exact hex
    · rw [List.mem_singleton.mp ha, List.mem_singleton.mp hb]
      exact hm.irrefl _
  have hothers : Allowed m excluded (ids ++ ids') :=
    h.append_of_free hm h' (fun id hid => hlive id (hsub hid)) hcand'
  refine hown.append_of_free hm hothers (fun id hid => ?_) fun id hid => ?_
  · rw [List.mem_singleton.mp hid]
    exact hlive _ c.id_mem_ids
  · rcases List.mem_append.mp hid with hid | hid
    · exact hcand id (hsub hid)
    · exact hcand' id hid

end Allowed

/-! ### Builds -/

/-- The decisions make a build of the item: they fill its slots, with items that may be chosen
together. -/
structure Part.Feasible (m : ConflictMap) (excluded : NameSet) (part : Part) (ds : List Decision) :
    Prop where
  fills : Fills part.slots ds
  allowed : Allowed m excluded (Decision.ids ds)

/-- The sums over an item and everything that some decisions mount. -/
def Part.totals (part : Part) (ds : List Decision) : Totals :=
  part.label.modifiers + Decision.sums ds

/-- The totals of all feasible builds of an item. -/
def Part.reachable (m : ConflictMap) (excluded : NameSet) (part : Part) : Set Totals :=
  {t | ∃ ds, part.Feasible m excluded ds ∧ part.totals ds = t}

theorem Part.totals_mem_reachable {m : ConflictMap} {excluded : NameSet} {part : Part}
    {ds : List Decision} (h : part.Feasible m excluded ds) :
    part.totals ds ∈ part.reachable m excluded :=
  ⟨ds, h, rfl⟩

end Gunsmith
