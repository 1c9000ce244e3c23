/-
  Expansions that contain each other.

  An expansion depends on what the catalogue says and on what the constraints admit.  Where
  another catalogue and other constraints admit as much (`Admits`), the expansion that they
  lead to, down to the same depth or deeper, has room for whatever is mounted in this one
  (`Admits.fillsInto`): the slots of an item include those that it has here, in the same
  order, and what is a candidate for a slot here is a candidate for it there.

  What it has besides does no harm.  Additional slots can stay empty, and two items that
  stand in both trees are in conflict in the one only if they are in the other
  (`Admits.conflicts_of_conflicts`), because a conflict is declared by one of the two.  So
  what can be built here can be built there (`Admits.reachable_subset`).

  The comparison may be limited to some of the items (`P`), as for builds that are known not
  to use the others.
-/
import Gunsmith.Proofs.Tree.Candidates

namespace Gunsmith

open Decision

/-! ### Lists that are embedded in others -/

section Embedded

variable {α β γ : Type} {xs xs' : List α} {ys : List β} {zs : List γ}

/-- What stands beside a part of a list is embedded in what stands beside all of it. -/
theorem sublistForall₂_common {R : α → β → Prop} {S : α → γ → Prop} {T : β → γ → Prop}
    (h : xs.Sublist xs') (hys : List.Forall₂ R xs ys) (hzs : List.Forall₂ S xs' zs)
    (hT : ∀ x y z, R x y → S x z → T y z) : List.SublistForall₂ T ys zs := by
  induction h generalizing ys zs with
  | slnil =>
    cases hys
    exact List.SublistForall₂.nil
  | cons x _ ih =>
    cases hzs with
    | cons _ hzs => exact List.SublistForall₂.cons_right (ih hys hzs)
  | cons_cons x _ ih =>
    cases hys with
    | cons hxy hys =>
      cases hzs with
      | cons hxz hzs => exact List.SublistForall₂.cons (hT x _ _ hxy hxz) (ih hys hzs)

/-- What stands beside the numbered members of a list stands beside the members. -/
theorem forall₂_of_zipIdx {R : α × Nat → β → Prop} (h : List.Forall₂ R xs.zipIdx ys) :
    List.Forall₂ (fun x y => ∃ i, R (x, i) y) xs ys := by
  have hmap : List.Forall₂ (fun x y => ∃ i, R (x, i) y) (xs.zipIdx.map Prod.fst) ys :=
    List.forall₂_map_left_iff.mpr (h.imp fun x y hxy => ⟨x.2, hxy⟩)
  rwa [List.zipIdx_map_fst] at hmap

end Embedded

/-! ### Fillings that mount the same -/

/-- The latter decisions mount the same items as the former, to the same sums. -/
structure Decision.Alike (ds es : List Decision) : Prop where
  ids : ids es = ids ds
  sums : sums es = sums ds

/-- Whatever fills the former slots with items in question is matched by something that fills the
latter. -/
def FillsInto (P : String → Prop) (ss ts : List Slot) : Prop :=
  ∀ ds, Fills ss ds → (∀ id ∈ ids ds, P id) → ∃ es, Fills ts es ∧ Alike ds es

/-- The candidates in question for the former slot are candidates for the latter, where as much can
be mounted below them. -/
def Slot.EmbedsInto (P : String → Prop) (s t : Slot) : Prop :=
  ∀ x ∈ s.candidates, P x.id → ∃ y ∈ t.candidates,
    y.id = x.id ∧ y.label.modifiers = x.label.modifiers ∧ FillsInto P x.slots y.slots

/-- **Slots embedded in others** can be filled there; the others stay empty. -/
theorem fillsInto_of_sublistForall₂ {P : String → Prop} {ss ts : List Slot}
    (h : List.SublistForall₂ (Slot.EmbedsInto P) ss ts) : FillsInto P ss ts := by
  induction h with
  | @nil ts =>
    intro ds hds _
    rw [fills_nil_iff.mp hds]
    refine ⟨_, fills_empty ts, ?_, sums_empty ts⟩
    induction ts with
    | nil => rfl
    | cons t ts ih => exact ih
  | @cons s t ss ts hst _ ih =>
    intro ds hds hP
    rcases fills_cons_iff.mp hds with ⟨es, rfl, hes⟩ | ⟨x, hx, es, rfl, hes⟩
    · obtain ⟨fs, hfs, hids, hsums⟩ := ih es hes hP
      exact ⟨⟨t, none⟩ :: fs, Fills.skip hfs, hids, hsums⟩
    · obtain ⟨d, e, rfl, hd, he⟩ := fills_append_iff.mp hes
      rw [ids_cons_some, ids_append] at hP
      obtain ⟨y, hy, hid, hmod, hbelow⟩ := hst x hx (hP x.id List.mem_cons_self)
      obtain ⟨d', hd', hids, hsums⟩ := hbelow d hd fun id h =>
        hP id (List.mem_cons_of_mem _ (List.mem_append_left _ h))
      obtain ⟨e', he', hids', hsums'⟩ := ih e he fun id h =>
        hP id (List.mem_cons_of_mem _ (List.mem_append_right _ h))
      refine ⟨⟨t, some y⟩ :: (d' ++ e'), Fills.mount hy (hd'.append he'), ?_, ?_⟩
      · rw [ids_cons_some, ids_cons_some, ids_append, ids_append, hid, hids, hids']
      · rw [sums_cons_some, sums_cons_some, sums_append, sums_append, hmod, hsums, hsums']
  | @cons_right t ss ts _ ih =>
    intro ds hds hP
    obtain ⟨es, hes, hids, hsums⟩ := ih ds hds hP
    exact ⟨⟨t, none⟩ :: es, Fills.skip hes, hids, hsums⟩

/-! ### Constraints and catalogues that admit as much -/

/-- The latter catalogue and constraints admit as much as the former, as far as the items in question
go: nothing is closed, out of reach or in conflict that was not, and all has the same worth. -/
structure Admits (p p' : Provider Id) (c c' : Constraints) (P : String → Prop) : Prop where
  weapon : p'.weapon = p.weapon
  slots : p'.slots = p.slots
  allowed : p'.allowed = p.allowed
  ignored : ∀ name, c'.Ignores name → c.Ignores name
  obtainable : ∀ id, P id → Obtainable p c id → Obtainable p' c' id
  modifiers : ∀ {id found found'}, p.properties id = .ok found → p'.properties id = .ok found' →
    found'.modifiers = found.modifiers
  conflicts : ∀ {id found found'}, p.properties id = .ok found → p'.properties id = .ok found' →
    found'.conflicts ⊆ found.conflicts

section Expansions

variable {p p' : Provider Id} {c c' : Constraints} {P : String → Prop} {chain : List Placement}
  {address address' : List Nat} {depth depth' : Nat}

/-- With the same catalogue, only the constraints matter. -/
theorem Admits.of_obtainable (hignored : ∀ name, c'.Ignores name → c.Ignores name)
    (hobtainable : ∀ id, P id → Obtainable p c id → Obtainable p c' id) : Admits p p c c' P where
  weapon := rfl
  slots := rfl
  allowed := rfl
  ignored := hignored
  obtainable := hobtainable
  modifiers h h' := by
    rw [Except.ok.inj (h.symm.trans h')]
  conflicts h h' := by
    rw [Except.ok.inj (h.symm.trans h')]
    exact List.Subset.refl _

/-- An item that fits a slot, can be had and repeats no placement is a candidate. -/
theorem SlotExpands.exists_candidate {ownerId : String} {row : SlotRecord} {i : Nat} {s : Slot}
    {allowed : List AllowedItem} {verdicts : List (String × Verdict Part)}
    (h : SlotExpands p c depth chain address ownerId row i s allowed verdicts) {item : AllowedItem}
    (hitem : item ∈ allowed) (hhad : Obtainable p c item.id)
    (hchain : (⟨item.id, row.id⟩ : Placement) ∉ chain) :
    ∃ x ∈ s.candidates, ∃ found j, p.properties item.id = .ok found ∧
      (expand p c depth (⟨item.id, row.id⟩ :: chain) (j :: i :: address) (item.label found)).run =
        Except.ok x := by
  obtain ⟨⟨id, verdict⟩, hv, j, -, hsettled⟩ :=
    exists_of_forall₂ (forall₂_of_zipIdx h.settled).flip hitem
  cases hsettled with
  | unavailable hcons => exact absurd rfl (hcons.obtainable_iff.mp hhad)
  | cyclic hcons =>
    cases hcons with
    | cyclic _ _ _ hmem => exact absurd hmem hchain
  | @mounted _ x hcons hx =>
    cases hcons with
    | mounted _ _ _ _ hfound =>
      refine ⟨x, ?_, _, j, hfound, hx⟩
      rw [h.candidates]
      exact List.mem_filterMap.mpr ⟨_, hv, rfl⟩

/-- Slots for the same row embed into each other, if what is expanded in the former has room in the
latter. -/
theorem Admits.embedsInto (h : Admits p p' c c' P)
    (hbelow : ∀ {chain : List Placement} {address address' : List Nat} {label label' : Label}
      {x y : Part}, (expand p c depth chain address label).run = Except.ok x →
      (expand p' c' depth' chain address' label').run = Except.ok y →
      label'.id = label.id → FillsInto P x.slots y.slots)
    {ownerId ownerId' : String} {row : SlotRecord} {i i' : Nat} {s t : Slot}
    {allowed allowed' : List AllowedItem} {verdicts verdicts' : List (String × Verdict Part)}
    (hs : SlotExpands p c depth chain address ownerId row i s allowed verdicts)
    (ht : SlotExpands p' c' depth' chain address' ownerId' row i' t allowed' verdicts') :
    s.EmbedsInto P t := by
  intro d hd hP
  obtain rfl : allowed = allowed' := by
    have hread := ht.read
    rw [h.allowed, hs.read] at hread
    exact Except.ok.inj hread
  obtain ⟨item, hitem, j, hsettled⟩ := hs.settled_of_mem hd
  cases hsettled with
  | mounted hcons hd =>
    have hhad := hcons.obtainable_iff.mpr nofun
    cases hcons with
    | mounted _ _ _ hchain hfound =>
      obtain ⟨cut, hlabel⟩ := expand_label hd
      have hid : d.id = item.id := by rw [Part.id, hlabel]; rfl
      -- The item can be had there as well, and both slots are on the same way.
      obtain ⟨e, he, found', j', hfound', hexp⟩ :=
        ht.exists_candidate hitem (h.obtainable _ (hid ▸ hP) hhad) hchain
      obtain ⟨cut', hlabel'⟩ := expand_label hexp
      refine ⟨e, he, ?_, ?_, hbelow hd hexp rfl⟩
      · rw [hid, Part.id, hlabel']
        rfl
      · rw [hlabel, hlabel']
        exact h.modifiers hfound hfound'

/-- **An expansion that admits as much** has room for whatever fills the slots of this one. -/
theorem Admits.fillsInto (h : Admits p p' c c' P) {depth : Nat} : ∀ {depth' : Nat}
    {chain : List Placement} {address address' : List Nat} {label label' : Label} {x y : Part},
    (expand p c depth chain address label).run = Except.ok x →
    (expand p' c' depth' chain address' label').run = Except.ok y →
    depth ≤ depth' → label'.id = label.id → FillsInto P x.slots y.slots := by
  induction depth with
  | zero =>
    intro depth' chain address address' label label' x y hx _ _ _
    obtain ⟨rows, -, rfl⟩ := expand_zero_ok hx
    exact fillsInto_of_sublistForall₂ List.SublistForall₂.nil
  | succ depth ih =>
    intro depth' chain address address' label label' x y hx hy hle hid
    obtain ⟨k, rfl⟩ := Nat.exists_eq_add_of_lt hle
    obtain ⟨rows, slots, hrows, rfl, hslots⟩ := expand_succ_ok hx
    obtain ⟨rows', slots', hrows', rfl, hslots'⟩ := expand_succ_ok hy
    obtain rfl : rows = rows' := by
      rw [h.slots, hid, hrows] at hrows'
      exact Except.ok.inj hrows'
    have hopen : (rows.filter fun row => ¬ c.Ignores row.name).Sublist
        (rows.filter fun row => ¬ c'.Ignores row.name) := by
      refine List.monotone_filter_right rows fun row hrow => ?_
      rw [decide_eq_true_eq] at hrow ⊢
      exact fun hign => hrow (h.ignored row.name hign)
    refine fillsInto_of_sublistForall₂ (sublistForall₂_common hopen (forall₂_of_zipIdx hslots)
      (forall₂_of_zipIdx hslots') ?_)
    rintro row s t ⟨i, allowed, verdicts, hs⟩ ⟨i', allowed', verdicts', ht⟩
    exact h.embedsInto (fun hx hy => ih hx hy (Nat.le_add_right depth k)) hs ht

/-! ### Feasible builds -/

/-- What is mounted is attached to the item. -/
theorem Fills.exists_attached {part : Part} {ds : List Decision} (h : Fills part.slots ds)
    {id : String} (hid : id ∈ ids ds) : ∃ d, part.Attached d ∧ d.id = id := by
  obtain ⟨s, hs, d, hd, hid⟩ := h.mem_ids_of_mounted hid
  have hattached := Part.attached_of_candidate hs hd
  rcases Part.mem_ids_iff_attached.mp hid with rfl | ⟨e, he, rfl⟩
  · exact ⟨d, hattached, rfl⟩
  · exact ⟨e, hattached.trans he, rfl⟩

variable {x y : Part}

/-- **No conflicts are added** among items that stand in both trees. -/
theorem Admits.conflicts_of_conflicts (h : Admits p p' c c' P) (hx : Expanded p c x)
    (hy : Expanded p' c' y) {d e : Part} (hd : x.Attached d) (he : x.Attached e)
    (hde : y.declarations.symmetric.Conflicts d.id e.id) :
    x.declarations.symmetric.Conflicts d.id e.id := by
  -- Whichever of the two declares the other there, declares it here as well.
  have hdeclared : ∀ {f g : Part}, x.Attached f → y.Attached g → g.id = f.id →
      ∀ id ∈ g.label.declared, id ∈ f.label.declared := by
    intro f g hf hg hid id hmem
    obtain ⟨-, found, hfound⟩ := hx.attached hf
    obtain ⟨-, found', hfound'⟩ := hy.attached hg
    rw [hfound'.declared, NameSet.mem_ofList] at hmem
    rw [hfound.declared, NameSet.mem_ofList]
    exact h.conflicts hfound.properties (hid ▸ hfound'.properties) hmem
  obtain ⟨hne, g, hg, ⟨hid, hmem⟩ | ⟨hid, hmem⟩⟩ := Part.conflicts_iff.mp hde
  · exact Part.conflicts_iff.mpr ⟨hne, d, hd, Or.inl ⟨rfl, hdeclared hd hg hid _ hmem⟩⟩
  · exact Part.conflicts_iff.mpr ⟨hne, e, he, Or.inr ⟨rfl, hdeclared he hg hid _ hmem⟩⟩

/-- **What can be built here can be built there**, if the items that may be used here are in question
and may be used there. -/
theorem Admits.reachable_subset (h : Admits p p' c c' P) {maxDepth maxDepth' : Nat}
    {weaponId : String} {excluded excluded' : NameSet}
    (hx : (CandidateTree.expansion p maxDepth weaponId c).run = Except.ok x)
    (hy : (CandidateTree.expansion p' maxDepth' weaponId c').run = Except.ok y)
    (hle : maxDepth ≤ maxDepth')
    (husable : ∀ d, x.Attached d → d.id ∉ excluded → P d.id ∧ d.id ∉ excluded') :
    x.reachable x.declarations.symmetric excluded ⊆
      y.reachable y.declarations.symmetric excluded' := by
  rintro t ⟨ds, hds, rfl⟩
  have hexp := CandidateTree.expanded_of_expansion hx
  have hexp' := CandidateTree.expanded_of_expansion hy
  obtain ⟨w, -, hw, hx⟩ := CandidateTree.expansion_ok hx
  obtain ⟨w', -, hw', hy⟩ := CandidateTree.expansion_ok hy
  obtain rfl : w = w' := by
    rw [h.weapon, hw] at hw'
    exact Except.ok.inj hw'
  have hids : ∀ id ∈ ids ds, P id ∧ id ∉ excluded' := by
    intro id hid
    obtain ⟨d, hd, rfl⟩ := hds.fills.exists_attached hid
    exact husable d hd (hds.allowed.available _ hid)
  obtain ⟨es, hes, hmounted⟩ := h.fillsInto hx hy hle rfl ds hds.fills fun id hid => (hids id hid).1
  refine ⟨es, ⟨hes, ?_, ?_⟩, ?_⟩
  · rw [hmounted.ids]
    exact fun id hid => (hids id hid).2
  · rw [hmounted.ids]
    intro a ha b hb hab
    obtain ⟨d, hd, rfl⟩ := hds.fills.exists_attached ha
    obtain ⟨e, he, rfl⟩ := hds.fills.exists_attached hb
    exact hds.allowed.compatible _ ha _ hb (h.conflicts_of_conflicts hexp hexp' hd he hab)
  · obtain ⟨cut, hlabel⟩ := expand_label hx
    obtain ⟨cut', hlabel'⟩ := expand_label hy
    rw [Part.totals, Part.totals, hlabel, hlabel', hmounted.sums]

end Expansions

end Gunsmith
