/-
  Where the cycle guard cuts.

  What is expanded below an item depends on the item, on the catalogue and the constraints,
  on the depth limit, and on the placements on the way to the item, through the cycle guard.
  If the depth limit closes nothing, then only the guard can make a difference: two
  expansions of the same item below which the guard keeps out the same items
  (`Part.CutAlike`) can be filled alike, place by place, and so are worth the same
  (`fillable_eq_of_cutAlike`).
-/
import Gunsmith.Proofs.Tree.Candidates
import Mathlib.Data.List.Zip

namespace Gunsmith

open Decision

/-! ### Lists side by side with a common one -/

section Common

variable {α β γ : Type} {R : α → β → Prop} {S : α → γ → Prop} {xs : List α} {ys : List β}
  {zs : List γ}

theorem forall₂_common (h : List.Forall₂ R xs ys) (h' : List.Forall₂ S xs zs) :
    List.Forall₂ (fun y z => ∃ x, R x y ∧ S x z) ys zs := by
  induction h generalizing zs with
  | nil =>
    cases h'
    exact List.Forall₂.nil
  | cons hxy _ ih =>
    cases h' with
    | cons hxz h' => exact List.Forall₂.cons ⟨_, hxy, hxz⟩ (ih h')

theorem forall₂_zip (h : List.Forall₂ R xs ys) :
    List.Forall₂ (fun x y => (x, y) ∈ xs.zip ys ∧ R x y) xs ys := by
  induction h with
  | nil => exact List.Forall₂.nil
  | @cons x y xs ys hxy _ ih =>
    rw [List.zip_cons_cons]
    refine List.Forall₂.cons ⟨List.mem_cons_self, hxy⟩ (ih.imp fun a b hab => ?_)
    exact ⟨List.mem_cons_of_mem _ hab.1, hab.2⟩

theorem forall₂_filterMap {δ ε : Type} {Q : δ → ε → Prop} {f : β → Option δ} {g : γ → Option ε}
    (h : List.Forall₂ (fun y z => (f y = none ∧ g z = none) ∨
      ∃ d e, f y = some d ∧ g z = some e ∧ Q d e) ys zs) :
    List.Forall₂ Q (ys.filterMap f) (zs.filterMap g) := by
  induction h with
  | nil => exact List.Forall₂.nil
  | cons hyz _ ih =>
    rw [List.filterMap_cons, List.filterMap_cons]
    rcases hyz with ⟨hf, hg⟩ | ⟨d, e, hf, hg, hq⟩
    · rw [hf, hg]
      exact ih
    · rw [hf, hg]
      exact List.Forall₂.cons hq ih

theorem mem_zip_comm {y : β} {z : γ} (h : (y, z) ∈ ys.zip zs) : (z, y) ∈ zs.zip ys := by
  rw [← List.zip_swap]
  exact List.mem_map_of_mem h

end Common

/-! ### Trees without closed slots -/

namespace Part

theorem truncated_eq_false_iff {part : Part} :
    part.truncated = false ↔
      part.label.cut = false ∧ ∀ s ∈ part.slots, ∀ c ∈ s.candidates, c.truncated = false := by
  unfold truncated
  rw [fold_eq]
  simp only [Bool.or_eq_false_iff, List.any_eq_false, List.mem_map, forall_exists_index, and_imp,
    forall_apply_eq_imp_iff₂, Bool.not_eq_true]
  refine and_congr_right fun _ => forall_congr' fun s => imp_congr_right fun _ => ?_
  rw [Slot.fold_eq]
  simp only [List.any_eq_false, List.mem_map, forall_exists_index, and_imp,
    forall_apply_eq_imp_iff₂, Bool.not_eq_true]

/-- If nothing is closed in a tree, then nothing is closed below any item attached to it. -/
theorem Attached.truncated {top part : Part} (h : top.Attached part)
    (htop : top.truncated = false) : part.truncated = false := by
  induction top using induct_slots with
  | step top ih =>
    have hbelow := (truncated_eq_false_iff.mp htop).2
    obtain ⟨s, hs, d, hd, rfl | hdp⟩ := attached_iff.mp h
    · exact hbelow s hs part hd
    · exact ih s hs d hd hdp (hbelow s hs d hd)

/-! ### Cuts of the guard -/

/-- Below the two items, slot by slot and candidate by candidate, the cycle guard keeps out the same
items. -/
inductive CutAlike : Part → Part → Prop
  | mk {x y : Part}
    (cyclic : ∀ s t, (s, t) ∈ x.slots.zip y.slots → s.site.cyclic = t.site.cyclic)
    (below : ∀ s t, (s, t) ∈ x.slots.zip y.slots →
      ∀ c d, (c, d) ∈ s.candidates.zip t.candidates → CutAlike c d) : CutAlike x y

variable {x y : Part}

theorem CutAlike.symm (h : x.CutAlike y) : y.CutAlike x := by
  induction h with
  | mk cyclic _ ih =>
    refine ⟨fun s t hst => ?_, fun s t hst c d hcd => ?_⟩
    · exact (cyclic t s (mem_zip_comm hst)).symm
    · exact ih t s (mem_zip_comm hst) d c (mem_zip_comm hcd)

/-- Where the guard keeps nothing out, it cuts alike. -/
theorem cutAlike_of_uncut (hx : ∀ s ∈ x.allSlots, s.site.cyclic = [])
    (hy : ∀ s ∈ y.allSlots, s.site.cyclic = []) : x.CutAlike y := by
  induction x using induct_slots generalizing y with
  | step x ih =>
    refine ⟨fun s t hst => ?_, fun s t hst c d hcd => ?_⟩
    · obtain ⟨hs, ht⟩ := List.of_mem_zip hst
      rw [hx s (mem_allSlots_of_mem_slots hs), hy t (mem_allSlots_of_mem_slots ht)]
    · obtain ⟨hs, ht⟩ := List.of_mem_zip hst
      obtain ⟨hc, hd⟩ := List.of_mem_zip hcd
      refine ih s hs c hc (fun u hu => hx u ?_) fun u hu => hy u ?_
      · exact mem_allSlots_of_candidate (mem_allSlots_of_mem_slots hs) hc hu
      · exact mem_allSlots_of_candidate (mem_allSlots_of_mem_slots ht) hd hu

end Part

/-! ### Verdicts side by side -/

section Verdicts

variable {p : Provider Id} {c : Constraints} {chain chain' : List Placement}
  {address address' : List Nat} {depth depth' i j : Nat} {row : SlotRecord} {item : AllowedItem}
  {allowed : List AllowedItem}

/-- The names of the items that the guard kept out. -/
def cyclicIds (verdicts : List (String × Verdict Part)) : List String :=
  (verdicts.filter fun v => v.2.isCyclic).map Prod.fst

/-- The items that fit a slot are settled one after the other. -/
def AllSettled (p : Provider Id) (c : Constraints) (depth : Nat) (chain : List Placement)
    (address : List Nat) (i : Nat) (row : SlotRecord) (allowed : List AllowedItem)
    (verdicts : List (String × Verdict Part)) : Prop :=
  List.Forall₂ (fun a v => v.1 = a.1.id ∧ Settled p c depth chain address i row a.1 a.2 v.2)
    allowed.zipIdx verdicts

/-- An item that was kept out has its placement on the chain. -/
theorem AllSettled.mem_chain {verdicts : List (String × Verdict Part)}
    (h : AllSettled p c depth chain address i row allowed verdicts) {id : String}
    (hid : id ∈ cyclicIds verdicts) : ⟨id, row.id⟩ ∈ chain := by
  obtain ⟨v, hv, rfl⟩ := List.mem_map.mp hid
  obtain ⟨hv, hcyclic⟩ := List.mem_filter.mp hv
  obtain ⟨⟨item, j⟩, -, hname, hsettled⟩ := exists_of_forall₂ h hv
  obtain ⟨name, verdict⟩ := v
  cases hsettled with
  | unavailable _ => exact absurd hcyclic Bool.false_ne_true
  | mounted _ _ => exact absurd hcyclic Bool.false_ne_true
  | cyclic hcons =>
    cases hcons with
    | cyclic _ _ _ hchain =>
      rw [hname]
      exact hchain

/-- An item that can be had and has its placement on the chain was kept out. -/
theorem AllSettled.mem_cyclicIds {verdicts : List (String × Verdict Part)}
    {v : String × Verdict Part} (hv : v ∈ verdicts) (hname : v.1 = item.id)
    (h : Settled p c depth chain address i row item j v.2) (hhad : Obtainable p c item.id)
    (hchain : ⟨item.id, row.id⟩ ∈ chain) : item.id ∈ cyclicIds verdicts := by
  obtain ⟨name, verdict⟩ := v
  refine List.mem_map.mpr ⟨_, List.mem_filter.mpr ⟨hv, ?_⟩, hname⟩
  cases h with
  | unavailable hcons => exact absurd rfl (hcons.obtainable_iff.mp hhad)
  | cyclic _ => rfl
  | mounted hcons _ =>
    cases hcons with
    | mounted _ _ _ hnot _ => exact absurd hchain hnot

/-- Two items were expanded from the same attachment, in different places. -/
def ExpandedAlike (p : Provider Id) (c : Constraints) (depth depth' : Nat) (x y : Part) : Prop :=
  ∃ chain chain' address address' label,
    (expand p c depth chain address label).run = Except.ok x ∧
      (expand p c depth' chain' address' label).run = Except.ok y

/-- If the guard says the same in both places, then an item became a candidate in both or in
neither. -/
theorem Settled.alike {v v' : Verdict Part}
    (h : Settled p c depth chain address i row item j v)
    (h' : Settled p c depth' chain' address' i row item j v')
    (hguard : Obtainable p c item.id →
      ((⟨item.id, row.id⟩ : Placement) ∈ chain ↔ ⟨item.id, row.id⟩ ∈ chain')) :
    (v.part? = none ∧ v'.part? = none) ∨
      ∃ x y, v.part? = some x ∧ v'.part? = some y ∧ ExpandedAlike p c depth depth' x y := by
  -- Whether the item can be had does not depend on the place, so only the guard could tell the two
  -- verdicts apart.
  cases h with
  | unavailable hcons =>
    cases h' with
    | unavailable _ => exact Or.inl ⟨rfl, rfl⟩
    | cyclic _ => exact Or.inl ⟨rfl, rfl⟩
    | mounted hcons' _ =>
      have hhad := hcons'.obtainable_iff.mpr nofun
      exact absurd rfl (hcons.obtainable_iff.mp hhad)
  | cyclic hcons =>
    cases h' with
    | unavailable _ => exact Or.inl ⟨rfl, rfl⟩
    | cyclic _ => exact Or.inl ⟨rfl, rfl⟩
    | mounted hcons' _ =>
      have hhad := hcons'.obtainable_iff.mpr nofun
      cases hcons with
      | cyclic _ _ _ hchain =>
        cases hcons' with
        | mounted _ _ _ hnot _ => exact absurd ((hguard hhad).mp hchain) hnot
  | mounted hcons hx =>
    have hhad := hcons.obtainable_iff.mpr nofun
    cases hcons with
    | mounted _ _ _ hnot hfound =>
      cases h' with
      | unavailable hcons' => exact absurd rfl (hcons'.obtainable_iff.mp hhad)
      | cyclic hcons' =>
        cases hcons' with
        | cyclic _ _ _ hchain => exact absurd ((hguard hhad).mpr hchain) hnot
      | mounted hcons' hy =>
        cases hcons' with
        | mounted _ _ _ _ hfound' =>
          rw [hfound, Except.ok.injEq] at hfound'
          subst hfound'
          exact Or.inr ⟨_, _, rfl, rfl, _, _, _, _, _, hx, hy⟩

/-- Slots for the same row from which the guard keeps out the same items have the same candidates,
in the same order. -/
theorem SlotExpands.forall₂_candidates {ownerId ownerId' : String} {s t : Slot}
    {allowed allowed' : List AllowedItem} {verdicts verdicts' : List (String × Verdict Part)}
    (h : SlotExpands p c depth chain address ownerId row i s allowed verdicts)
    (h' : SlotExpands p c depth' chain' address' ownerId' row i t allowed' verdicts')
    (hcyclic : s.site.cyclic = t.site.cyclic) :
    List.Forall₂ (ExpandedAlike p c depth depth') s.candidates t.candidates := by
  obtain rfl : allowed = allowed' := Except.ok.inj (h.read.symm.trans h'.read)
  have hids : cyclicIds verdicts = cyclicIds verdicts' := by
    rw [h.site, h'.site] at hcyclic
    exact hcyclic
  rw [h.candidates, h'.candidates]
  refine forall₂_filterMap ((forall₂_zip (forall₂_common h.settled h'.settled)).imp ?_)
  rintro v v' ⟨hzip, ⟨item, j⟩, ⟨hname, hsettled⟩, hname', hsettled'⟩
  obtain ⟨hv, hv'⟩ := List.of_mem_zip hzip
  refine hsettled.alike hsettled' fun hhad => ⟨fun hchain => ?_, fun hchain => ?_⟩
  · have hmem := AllSettled.mem_cyclicIds hv hname hsettled hhad hchain
    rw [hids] at hmem
    exact AllSettled.mem_chain h'.settled hmem
  · have hmem := AllSettled.mem_cyclicIds hv' hname' hsettled' hhad hchain
    rw [← hids] at hmem
    exact AllSettled.mem_chain h.settled hmem

end Verdicts

/-! ### Fillings side by side -/

/-- Slots with candidates that can be filled alike can be filled alike. -/
theorem exists_fills_of_forall₂ {ss ts : List Slot}
    (h : List.Forall₂ (fun s t => List.Forall₂ (fun x y =>
      x.label.modifiers = y.label.modifiers ∧
        ∀ ds, Fills x.slots ds → ∃ es, Fills y.slots es ∧ sums es = sums ds)
      s.candidates t.candidates) ss ts) :
    ∀ {ds : List Decision}, Fills ss ds → ∃ es, Fills ts es ∧ sums es = sums ds := by
  induction h with
  | nil =>
    intro ds hds
    exact ⟨ds, hds, rfl⟩
  | @cons s t ss ts hst _ ih =>
    intro ds hds
    rcases fills_cons_iff.mp hds with ⟨es, rfl, hes⟩ | ⟨x, hx, es, rfl, hes⟩
    · obtain ⟨fs, hfs, hsum⟩ := ih hes
      exact ⟨⟨t, none⟩ :: fs, Fills.skip hfs, hsum⟩
    · obtain ⟨d, e, rfl, hd, he⟩ := fills_append_iff.mp hes
      obtain ⟨y, hy, hmod, hbelow⟩ := exists_of_forall₂ hst.flip hx
      obtain ⟨d', hd', hsum⟩ := hbelow d hd
      obtain ⟨e', he', hsum'⟩ := ih he
      refine ⟨⟨t, some y⟩ :: (d' ++ e'), Fills.mount hy (hd'.append he'), ?_⟩
      rw [sums_cons_some, sums_cons_some, sums_append, sums_append, hsum, hsum', hmod]

/-- The totals of all ways to fill the slots of an item, conflicts left aside. -/
def Part.fillable (part : Part) : Set Totals :=
  {t | ∃ ds, Fills part.slots ds ∧ part.totals ds = t}

section Expansions

variable {p : Provider Id} {c : Constraints}

/-- What fills the slots of an item can be matched where the same item was expanded elsewhere, if the
guard cuts alike and the depth limit closes nothing there. -/
theorem exists_fills_of_cutAlike {depth : Nat} : ∀ {depth' : Nat} {chain chain' : List Placement}
    {address address' : List Nat} {label label' : Label} {x y : Part},
    (expand p c depth chain address label).run = Except.ok x →
    (expand p c depth' chain' address' label').run = Except.ok y →
    label.id = label'.id → y.truncated = false → x.CutAlike y →
    ∀ {ds : List Decision}, Fills x.slots ds → ∃ es, Fills y.slots es ∧ sums es = sums ds := by
  induction depth with
  | zero =>
    intro depth' chain chain' address address' label label' x y hx hy hid hopen halike ds hds
    obtain ⟨rows, -, rfl⟩ := expand_zero_ok hx
    rw [fills_nil_iff.mp hds]
    exact ⟨_, fills_empty y.slots, sums_empty y.slots⟩
  | succ depth ih =>
    intro depth' chain chain' address address' label label' x y hx hy hid hopen halike ds hds
    obtain ⟨rows, slots, hrows, rfl, hslots⟩ := expand_succ_ok hx
    cases depth' with
    | zero =>
      -- Nothing is closed, so there is nothing to open.
      obtain ⟨rows', hrows', rfl⟩ := expand_zero_ok hy
      obtain rfl : rows = rows' := Except.ok.inj (hrows.symm.trans (hid ▸ hrows'))
      have hcut : (!rows.isEmpty) = false := (Part.truncated_eq_false_iff.mp hopen).1
      obtain rfl : rows = [] := by simpa using hcut
      obtain rfl : slots = [] := List.forall₂_nil_left_iff.mp hslots
      exact ⟨ds, hds, rfl⟩
    | succ depth' =>
      obtain ⟨rows', slots', hrows', rfl, hslots'⟩ := expand_succ_ok hy
      obtain rfl : rows = rows' := Except.ok.inj (hrows.symm.trans (hid ▸ hrows'))
      have hbelow := (Part.truncated_eq_false_iff.mp hopen).2
      obtain ⟨hcyclic, halikes⟩ := halike
      refine exists_fills_of_forall₂ ?_ hds
      refine (forall₂_zip (forall₂_common hslots hslots')).imp ?_
      rintro s t ⟨hst, ⟨row, i⟩, ⟨allowed, verdicts, hs⟩, allowed', verdicts', ht⟩
      refine (forall₂_zip (hs.forall₂_candidates ht (hcyclic s t hst))).imp ?_
      rintro d e ⟨hde, chain, chain', address, address', label, hd, he⟩
      obtain ⟨cut, hdlabel⟩ := expand_label hd
      obtain ⟨cut', helabel⟩ := expand_label he
      refine ⟨by rw [hdlabel, helabel], fun fs hfs => ih hd he rfl ?_ ?_ hfs⟩
      · exact hbelow t (List.of_mem_zip hst).2 e (List.of_mem_zip hde).2
      · exact halikes s t hst d e hde

/-- The item stands in an expansion in which the depth limit closes nothing, and carries what the
catalogue says of it. -/
structure Part.FullyExpanded (p : Provider Id) (c : Constraints) (part : Part) : Prop where
  expanded : Expanded p c part
  faithful : ∃ found, part.Faithful p found
  opened : part.truncated = false

variable {x y : Part}

theorem fillable_subset_of_cutAlike (hx : x.FullyExpanded p c) (hy : y.FullyExpanded p c)
    (hid : x.id = y.id) (halike : x.CutAlike y) : x.fillable ⊆ y.fillable := by
  rintro t ⟨ds, hds, rfl⟩
  obtain ⟨_, _, _, label, hexp⟩ := hx.expanded
  obtain ⟨_, _, _, label', hexp'⟩ := hy.expanded
  obtain ⟨found, hfound⟩ := hx.faithful
  obtain ⟨found', hfound'⟩ := hy.faithful
  have hlabels : label.id = label'.id := by
    obtain ⟨cut, hlabel⟩ := expand_label hexp
    obtain ⟨cut', hlabel'⟩ := expand_label hexp'
    rw [Part.id, Part.id, hlabel, hlabel'] at hid
    exact hid
  obtain ⟨es, hes, hsum⟩ := exists_fills_of_cutAlike hexp hexp' hlabels hy.opened halike hds
  obtain rfl : found = found' :=
    Except.ok.inj (hfound.properties.symm.trans (hid ▸ hfound'.properties))
  refine ⟨es, hes, ?_⟩
  rw [Part.totals, Part.totals, hsum, hfound.modifiers, hfound'.modifiers]

/-- **Only the guard makes a difference**: the same item, fully expanded in two places where the
guard cuts alike, can be filled to the same totals. -/
theorem fillable_eq_of_cutAlike (hx : x.FullyExpanded p c) (hy : y.FullyExpanded p c)
    (hid : x.id = y.id) (halike : x.CutAlike y) : x.fillable = y.fillable :=
  Set.Subset.antisymm (fillable_subset_of_cutAlike hx hy hid halike)
    (fillable_subset_of_cutAlike hy hx hid.symm halike.symm)

end Expansions

end Gunsmith
