/-
  The tables hold a strict tree at every stage.

  Growing a tree for a request has an outcome, whatever the catalogue says: no number leads
  nowhere, and no way leads round in a circle.  It fails where collecting the candidates for the
  request fails, and in the same way; otherwise the tables hold the finished tree
  (`mirrors_grow`).

  Every edit on the way is permitted where it is made, so at every stage the tables are in order,
  and tables in order hold a strict tree (`strictGrowth`).
-/
import Gunsmith.Proofs.Arena.Choosing
import Gunsmith.Proofs.Arena.Populating
import Gunsmith.Proofs.Arena.Rating

namespace Gunsmith

open Growing

/-! ### Finishing -/

section Finish

variable {m m' : ConflictMap} {stat : Stat} {g : Growth} {part : Part}

/-- **Finishing a tree that is populated** orders and prunes it, and in the end all of it is rated
as it then is. -/
theorem succeeds_finish (hlive : ∀ id, m'.Live id ↔ m.Live id) (hwf : g.arena.WellFormed)
    (h : part.Held g.arena.view 0) :
    Succeeds (finish m' stat) g fun _ g' =>
      ((part.ordered stat).prune m stat).Held (g'.arena.rated m) 0 ∧
        g'.arena.truncated = g.arena.truncated := by
  unfold finish
  apply (succeeds_annotateAll hlive hwf h).bind
  rintro _ g₁ hlater₁ ⟨-, hrates, hrated⟩
  have hwf₁ := hlater₁.wellFormed hwf
  apply (succeeds_reselectAll (realizes_inOrder m stat).subperm hwf₁).bind
  rintro _ g₂ hlater₂ ⟨hchooses, -⟩
  have hordered : (part.ordered stat).Held (g₂.arena.rated m) 0 :=
    hrated.chosen (realizes_inOrder m stat) hchooses
      (fun q _ _ hnode hrating => ⟨hnode, hrating.trans (rating_ordered m stat q).symm⟩)
      fun q _ _ hnode hbounds => ⟨hnode, hbounds.trans (bounds_ordered stat q).symm⟩
  have hwf₂ := hlater₂.wellFormed hwf₁
  apply (succeeds_reselectAll (realizes_unremoved m stat).subperm hwf₂).bind
  rintro dropped g₃ hlater₃ ⟨hchooses', hsame⟩
  -- If candidates have been dropped, then ratings may be out of date.
  have hpruned : ((part.ordered stat).prune m stat).Held g₃.arena.view 0 :=
    hordered.chosen (realizes_unremoved m stat) hchooses'
      (fun _ j _ hnode _ => ⟨Nat.zero_le j, hnode⟩) fun _ t _ hnode _ => ⟨Nat.zero_le t, hnode⟩
  have htruncated : g₃.arena.truncated = g.arena.truncated := by
    rw [hchooses'.truncated, hchooses.truncated, hrates.truncated]
  by_cases hdropped : 0 < dropped
  · rw [if_pos hdropped]
    apply (succeeds_annotateAll hlive (hlater₃.wellFormed hwf₂) hpruned).bind
    rintro _ g₄ - ⟨-, hrates', hrated'⟩
    exact Succeeds.pure ⟨hrated', hrates'.truncated.trans htruncated⟩
  · rw [if_neg hdropped]
    -- The tables are as they were when they were rated.
    have harena := hsame (onlyDrops_unremoved stat) (Nat.eq_zero_of_not_pos hdropped)
    rw [← harena] at hordered
    exact Succeeds.pure ⟨hordered.rated_congr hpruned, htruncated⟩

end Finish

/-! ### Growing -/

variable (p : Provider Id) (maxDepth : Nat) (weaponId : String) (stat : Stat) (c : Constraints)

/-- The tables hold the tree, strictly, with the bounds and marks that the tree has, and answer as
it does, and the record of conflicts says what that of the tree says. -/
structure Growth.Holds (g : Growth) (m : ConflictMap) (tree : CandidateTree) : Prop where
  root : tree.root.Held (g.arena.rated tree.conflicts) 0
  strictTree : g.arena.StrictTree
  answers : g.arena.Answers tree.root
  truncated : g.arena.truncated = tree.truncated
  edges : m.edges.toList = tree.conflicts.edges.toList
  candidates : m.candidates = tree.conflicts.candidates

theorem permitted_weapon (w : Weapon) :
    (Edit.item (.ofLabel (CandidateTree.rootLabel w) none)).Permitted Arena.empty :=
  ⟨rfl, rfl⟩

/-- The weapon of a request has been entered. -/
theorem entered_weapon (w : Weapon) : Entered 0 (CandidateTree.rootLabel w) []
    (Growth.empty.edited (.item (.ofLabel (CandidateTree.rootLabel w) none))) where
  wellFormed := Arena.wellFormed_empty.apply (permitted_weapon w)
  item := ⟨_, rfl, ItemNode.shows_ofLabel _ none, rfl⟩
  chain := ⟨_, rfl, rfl⟩
  uncut := rfl

/-- **Growing a tree follows its expansion**, and ends in the finished tree over it. -/
theorem mirrors_grow :
    Mirrors (CandidateTree.expansion p maxDepth weaponId c) (grow p maxDepth weaponId stat c) .empty
      fun part m g => g.Holds m (.ofExpansion maxDepth stat c part) := by
  unfold CandidateTree.expansion grow
  cases c.validate with
  | error detail => exact mirrors_throw _ _ _
  | ok =>
    apply (mirrors_read _ _).bind
    rintro _ w g - ⟨rfl, rfl⟩
    apply (succeeds_edit (permitted_weapon w)).then_mirrors
    rintro _ _ - rfl
    -- The expansion ends with populating, and what is done afterwards reads nothing.
    rw [← bind_pure (expand _ _ _ _ _ _)]
    apply (mirrors_populate maxDepth (entered_weapon w)).bind
    intro part _ g hlater hpart
    rw [mirrors_pure]
    apply succeeds_get.bind
    rintro _ g - ⟨rfl, rfl⟩
    obtain ⟨calls, hregistry, halike⟩ := hpart.grown.recorded
    -- Conflicts are recorded while items are mounted, and collected from the tree by the expansion.
    have hrecord : g.registry.symmetric = Declarations.finished calls := by
      rw [hregistry]
      rfl
    have htree : part.declarations.symmetric =
        Declarations.finished (part.labels.tail.flatMap Label.calls) := by
      rw [Part.declarations, Declarations.foldl_collect]
      rfl
    have hlive : ∀ id, g.registry.symmetric.Live id ↔ part.declarations.symmetric.Live id := by
      intro id
      rw [hrecord, htree]
      exact halike.live_finished
    have hwf := hlater.wellFormed (entered_weapon w).wellFormed
    apply (succeeds_finish hlive hwf hpart.held).bind
    rintro _ g' hlater' ⟨hheld, htruncated⟩
    have hwf' := hlater'.wellFormed hwf
    have hview := hheld.of_rated
    have hstrict := hwf'.holdsStrictTree (List.ne_nil_of_length_pos hview.lt_length)
    have hcut := htruncated.trans hpart.grown.truncated
    refine Succeeds.pure ⟨hheld, hstrict, hview.answers hwf', hcut, ?_, ?_⟩
    · show g.registry.symmetric.edges.toList = part.declarations.symmetric.edges.toList
      rw [hrecord, htree]
      exact halike.toList_edges_finished
    · show g.registry.symmetric.candidates = part.declarations.symmetric.candidates
      rw [hrecord, htree]
      exact halike.candidates_finished

/-! ### Every stage -/

/-- Every stage of the growth can be told from the edits, and the tables hold a strict tree at each
of them. -/
structure Growth.Strict (g : Growth) : Prop where
  arena : g.arena = Arena.empty.applyAll g.edits
  stages : ∀ stage, stage <+: g.edits → stage ≠ [] → (Arena.empty.applyAll stage).StrictTree

/-- The first edit enters the weapon. -/
theorem Arena.items_ne_nil_of_permits {edits : List Edit} (h : empty.Permits edits)
    (hne : edits ≠ []) : (empty.applyAll edits).items ≠ [] := by
  cases edits with
  | nil => exact absurd rfl hne
  | cons e edits =>
    have hfirst : ∃ node, (empty.apply e).items[0]? = some node := by
      have hpermitted := h.1
      cases e with
      | item node => exact ⟨node, rfl⟩
      | slot node => exact absurd hpermitted.2 (Nat.not_lt_zero _)
      | mount s i => exact absurd hpermitted.1 (Nat.not_lt_zero _)
      | keepOut s id => exact absurd hpermitted (Nat.not_lt_zero _)
      | cut => exact absurd rfl hpermitted
      | rateItem i bounds conflictFree => exact absurd hpermitted (Nat.not_lt_zero _)
      | rateSlot s bounds => exact absurd hpermitted (Nat.not_lt_zero _)
      | select s candidates dropped => exact absurd hpermitted.1 (Nat.not_lt_zero _)
    obtain ⟨node, hnode⟩ := hfirst
    obtain ⟨node', hnode', -⟩ := getElem?_items_applyAll hnode edits
    exact List.ne_nil_of_mem (List.mem_of_getElem? hnode')

theorem Growth.Later.strict {g : Growth} (h : Growth.empty.Later g) : g.Strict := by
  obtain ⟨edits, hedits, hpermits, harena⟩ := h
  rw [Growth.empty, List.nil_append] at hedits
  subst hedits
  refine ⟨harena, ?_⟩
  rintro stage ⟨rest, hrest⟩ hne
  rw [← hrest, Arena.permits_append] at hpermits
  have hwf := Arena.wellFormed_empty.applyAll hpermits.1
  exact hwf.holdsStrictTree (Arena.items_ne_nil_of_permits hpermits.1 hne)

/-- **The tables hold a strict tree at every stage.**  For every catalogue and every request,
growing the tree has an outcome, which is that of collecting the candidates. -/
theorem strictGrowth : ∃ outcome g,
    (grow p maxDepth weaponId stat c).run.run .empty = some (outcome, g) ∧ g.Strict ∧
      match outcome with
      | .ok m => ∃ tree, (CandidateTree.build p maxDepth weaponId stat c).run = Except.ok tree ∧
          g.Holds m tree
      | .error e => (CandidateTree.build p maxDepth weaponId stat c).run = Except.error e := by
  have hmirrors : Mirrors (CandidateTree.build p maxDepth weaponId stat c)
      (grow p maxDepth weaponId stat c) .empty fun tree m g => g.Holds m tree :=
    (mirrors_grow p maxDepth weaponId stat c).then_pure fun _ _ _ _ hholds => hholds
  cases hbuild : (CandidateTree.build p maxDepth weaponId stat c).run with
  | error e =>
    obtain ⟨outcome, g, hrun, hlater, rfl⟩ := (mirrors_of_error hbuild).mp hmirrors
    exact ⟨_, g, hrun, hlater.strict, rfl⟩
  | ok tree =>
    obtain ⟨outcome, g, hrun, hlater, m, rfl, hholds⟩ := (mirrors_of_ok hbuild).mp hmirrors
    exact ⟨_, g, hrun, hlater.strict, tree, rfl, hholds⟩

end Gunsmith
