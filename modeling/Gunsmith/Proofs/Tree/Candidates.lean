/-
  What holds of every finished tree.

  A tree that was built is the finished form of an expansion (`build_ok`).  What the
  searches need to know of it is gathered here: its conflicts hold both ways and cover all
  that stands in it, its slots have different addresses, every item knows its slots, and
  every attached item carries what the catalogue says of it.
-/
import Gunsmith.Proofs.Tree.Exchange
import Gunsmith.Proofs.Tree.Expanded

namespace Gunsmith

namespace CandidateTree

variable {p : Provider Id} {c : Constraints} {maxDepth : Nat} {weaponId : String} {stat : Stat}
  {tree : CandidateTree} {part : Part}

/-! ### Building -/

theorem expansion_ok (h : (expansion p maxDepth weaponId c).run = Except.ok part) :
    ∃ w, c.validate = .ok () ∧ p.weapon weaponId = .ok w ∧
      (expand p c maxDepth [] [] (rootLabel w)).run = Except.ok part := by
  unfold expansion at h
  rcases hvalid : c.validate with detail | _
  · rw [hvalid] at h
    exact absurd h nofun
  · rw [hvalid] at h
    obtain ⟨w, hw, h⟩ := Reading.bind_ok h
    exact ⟨w, rfl, Reading.ask_ok hw, h⟩

theorem expanded_of_expansion (h : (expansion p maxDepth weaponId c).run = Except.ok part) :
    Expanded p c part := by
  obtain ⟨w, -, -, hexpand⟩ := expansion_ok h
  exact ⟨_, _, _, _, hexpand⟩

/-- An expansion is finished without further questions. -/
theorem build_of_expansion (stat : Stat)
    (h : (expansion p maxDepth weaponId c).run = Except.ok part) :
    (build p maxDepth weaponId stat c).run = Except.ok (ofExpansion maxDepth stat c part) := by
  unfold build
  rw [ExceptT.run_bind, h]
  rfl

/-- A tree that was built is the finished form of an expansion. -/
theorem build_ok (h : (build p maxDepth weaponId stat c).run = Except.ok tree) :
    ∃ part, (expansion p maxDepth weaponId c).run = Except.ok part ∧ Expanded p c part ∧
      tree = ofExpansion maxDepth stat c part := by
  obtain ⟨part, hpart, h⟩ := Reading.bind_ok h
  exact ⟨part, hpart, expanded_of_expansion hpart, (Reading.pure_ok h).symm⟩

/-! ### The finished form of an expansion -/

theorem mutual_ofExpansion (maxDepth : Nat) (stat : Stat) (c : Constraints) (part : Part) :
    (ofExpansion maxDepth stat c part).conflicts.Mutual :=
  part.mutual_conflicts

/-- Everything at and below an item attached to a trimmed tree was a candidate before. -/
theorem mem_candidates_of_attached {f : Part → Part} {g : Slot → Slot} (h : Trimming f g)
    {part d : Part} (hd : (f part).Attached d) {id : String} (hid : id ∈ d.ids) :
    id ∈ part.declarations.symmetric.candidates := by
  rw [Declarations.candidates_symmetric, Part.mem_candidates_declarations]
  rcases Part.mem_ids_iff_attached.mp hid with rfl | ⟨e, he, rfl⟩
  · obtain ⟨d', hd', rfl⟩ := h.attached hd
    exact ⟨d', hd', h.id d'⟩
  · obtain ⟨e', he', rfl⟩ := h.attached (hd.trans he)
    exact ⟨e', he', h.id e'⟩

theorem covers_trimmed {f : Part → Part} {g : Slot → Slot} (h : Trimming f g) (part : Part) :
    part.declarations.symmetric.Covers (f part).slots :=
  fun _ hs _ hd _ hid => mem_candidates_of_attached h (Part.attached_of_candidate hs hd) hid

theorem covers_ofExpansion (maxDepth : Nat) (stat : Stat) (c : Constraints) (part : Part) :
    (ofExpansion maxDepth stat c part).conflicts.Covers
      (ofExpansion maxDepth stat c part).root.slots :=
  covers_trimmed (trimming_finished part.declarations.symmetric stat) part

theorem distinctAddresses_ofExpansion (maxDepth : Nat) (stat : Stat) (h : Expanded p c part) :
    (ofExpansion maxDepth stat c part).root.DistinctAddresses := by
  have htrim := trimming_finished part.declarations.symmetric stat
  have hsub := subperm_map (htrim.subperm_allSlots part) fun s => s.site.address
  rw [List.map_map] at hsub
  have hsame : part.allSlots.map
      ((fun s : Slot => s.site.address) ∘ Slot.finished part.declarations.symmetric stat) =
      part.addresses := by
    refine List.map_congr_left fun s _ => ?_
    obtain ⟨pruned, hsite⟩ := s.site_finished part.declarations.symmetric stat
    show (s.finished _ stat).site.address = _
    rw [hsite]
  rw [hsame] at hsub
  obtain ⟨l, hp, hs⟩ := hsub
  exact hp.nodup_iff.mp (hs.nodup h.distinctAddresses)

/-- A finished item knows the slots that it has. -/
theorem ownerId_finished {m : ConflictMap} {x : Part} (h : Expanded p c x) {s : Slot}
    (hs : s ∈ (x.finished m stat).slots) : s.site.ownerId = (x.finished m stat).id := by
  have htrim := trimming_finished m stat
  rw [htrim.slots] at hs
  obtain ⟨t, ht, rfl⟩ := List.mem_map.mp hs
  obtain ⟨pruned, hsite⟩ := t.site_finished m stat
  rw [hsite, htrim.id]
  exact h.ownerId ht

/-- An item of the finished tree is the finished form of an expanded item, which carries what the
catalogue says of it. -/
theorem attached_ofExpansion (h : Expanded p c part) {x : Part}
    (hx : (ofExpansion maxDepth stat c part).root.Attached x) :
    ∃ y, part.Attached y ∧ y.finished part.declarations.symmetric stat = x ∧ Expanded p c y ∧
      ∃ found, y.Faithful p found := by
  obtain ⟨y, hy, rfl⟩ := (trimming_finished part.declarations.symmetric stat).attached hx
  exact ⟨y, hy, rfl, h.attached hy⟩

/-- Two different items of the finished tree that are not in conflict: neither declares the other. -/
theorem not_declared_of_not_conflicts (h : Expanded p c part) {x y : Part}
    (hx : (ofExpansion maxDepth stat c part).root.Attached x) (hne : x.id ≠ y.id)
    (hxy : ¬ (ofExpansion maxDepth stat c part).conflicts.Conflicts x.id y.id) :
    ∃ found, p.properties x.id = .ok found ∧ y.id ∉ found.conflicts := by
  obtain ⟨x', hx', rfl, -, found, hfaith⟩ := attached_ofExpansion h hx
  have hid := (trimming_finished part.declarations.symmetric stat).id x'
  rw [hid] at hne hxy ⊢
  refine ⟨found, hfaith.properties, fun hmem => hxy ?_⟩
  refine Part.conflicts_iff.mpr ⟨hne, x', hx', Or.inl ⟨rfl, ?_⟩⟩
  rw [hfaith.declared]
  exact NameSet.mem_ofList.mpr hmem

end CandidateTree

end Gunsmith
