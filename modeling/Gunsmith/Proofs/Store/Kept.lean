/-
  Which result is kept.

  Of the results that are offered for a request the store keeps one: the last of those that reach
  deepest (`SubtreeEntry.LastDeepest`).  Only those count that were offered since the results for
  the version were last forgotten, which happens whenever the results for all versions but another
  one are forgotten (`StoreCall.offered`).

  What a call does to the row of a request depends on the row alone: a result for the request
  replaces it unless it reaches less deep, and forgetting removes it (`Store.KeepsDeepest.run`).
  So after any run of calls a look-up answers what was offered last among the deepest, if that
  reaches the depth, and nothing otherwise; calls that are about other requests or versions could
  as well not have been made (`StoreCall.kept_after`).
-/
import Gunsmith.Proofs.Store.Writes
import Mathlib.Data.List.DropRight

namespace Gunsmith

/-! ### The last of the deepest -/

namespace SubtreeEntry

variable {e e' : SubtreeEntry} {entries : List SubtreeEntry}

/-- The entry is the last of those that reach deepest. -/
def LastDeepest (entries : List SubtreeEntry) (e : SubtreeEntry) : Prop :=
  ∃ before after, entries = before ++ e :: after ∧
    (∀ e' ∈ before, e'.depth ≤ e.depth) ∧ ∀ e' ∈ after, e'.depth < e.depth

theorem lastDeepest_singleton (e : SubtreeEntry) : LastDeepest [e] e :=
  ⟨[], [], rfl, nofun, nofun⟩

theorem LastDeepest.mem (h : LastDeepest entries e) : e ∈ entries := by
  obtain ⟨before, after, rfl, -⟩ := h
  exact List.mem_append_right before List.mem_cons_self

theorem LastDeepest.depth_le (h : LastDeepest entries e) (he' : e' ∈ entries) :
    e'.depth ≤ e.depth := by
  obtain ⟨before, after, rfl, hbefore, hafter⟩ := h
  rcases List.mem_append.mp he' with he' | he'
  · exact hbefore e' he'
  rcases List.mem_cons.mp he' with rfl | he'
  · exact le_rfl
  · exact (hafter e' he').le

/-- A further entry that reaches as deep is the last of the deepest. -/
theorem LastDeepest.concat_of_le (h : LastDeepest entries e) (hle : e.depth ≤ e'.depth) :
    LastDeepest (entries ++ [e']) e' :=
  ⟨entries, [], rfl, fun _ hmem => (h.depth_le hmem).trans hle, nofun⟩

/-- A further entry that reaches less deep changes nothing. -/
theorem LastDeepest.concat_of_lt (h : LastDeepest entries e) (hlt : e'.depth < e.depth) :
    LastDeepest (entries ++ [e']) e := by
  obtain ⟨before, after, rfl, hbefore, hafter⟩ := h
  refine ⟨before, after ++ [e'], by simp, hbefore, fun d hd => ?_⟩
  rcases List.mem_append.mp hd with hd | hd
  · exact hafter d hd
  · exact List.mem_singleton.mp hd ▸ hlt

/-- There is one last of the deepest. -/
theorem LastDeepest.unique (h : LastDeepest entries e) (h' : LastDeepest entries e') : e = e' := by
  have hdepth : e.depth = e'.depth := le_antisymm (h'.depth_le h.mem) (h.depth_le h'.mem)
  obtain ⟨before, after, rfl, hbefore, hafter⟩ := h
  obtain ⟨before', after', heq, hbefore', hafter'⟩ := h'
  rcases List.append_eq_append_iff.mp heq with ⟨between, -, hrest⟩ | ⟨between, -, hrest⟩
  · -- The second stands no earlier than the first, and nothing as deep comes after the first.
    cases between with
    | nil => exact (List.cons.inj hrest).1
    | cons d between =>
      obtain ⟨-, rfl⟩ := List.cons.inj hrest
      have hlater : e' ∈ between ++ e' :: after' := List.mem_append_right _ List.mem_cons_self
      exact absurd hdepth.symm (hafter e' hlater).ne
  · cases between with
    | nil => exact (List.cons.inj hrest).1.symm
    | cons d between =>
      obtain ⟨-, rfl⟩ := List.cons.inj hrest
      have hlater : e ∈ between ++ e :: after := List.mem_append_right _ List.mem_cons_self
      exact absurd hdepth (hafter' e hlater).ne

end SubtreeEntry

/-! ### What was offered -/

variable {itemId version : String} {stat : Stat} {c : Constraints} {depth : Nat}
  {e : SubtreeEntry} {entries : List SubtreeEntry} {rows : List SubtreeRow} {s : Store}

namespace StoreCall

variable {call : StoreCall} {calls : List StoreCall}

/-- The call forgets what is kept for a version, because it forgets it for all but another one. -/
def forgets (version : String) : StoreCall → Bool
  | .purgeSubtrees version' => version' != version
  | _ => false

/-- The result that a call offers for a request. -/
def offer? (itemId : String) (stat : Stat) (c : Constraints) (version : String) :
    StoreCall → Option SubtreeEntry
  | .keep e => if e.row.Matches itemId stat c version then some e else none
  | _ => none

/-- The results that some calls offer for a request, in their order, since what is kept for its
version was last forgotten. -/
def offered (itemId : String) (stat : Stat) (c : Constraints) (version : String)
    (calls : List StoreCall) : List SubtreeEntry :=
  (calls.rtakeWhile fun call => !call.forgets version).filterMap (offer? itemId stat c version)

/-- The call is about a request: it offers a result for it, or forgets what is kept for its
version. -/
def concerns (itemId : String) (stat : Stat) (c : Constraints) (version : String)
    (call : StoreCall) : Bool :=
  call.forgets version || (call.offer? itemId stat c version).isSome

theorem offered_concat_of_forgets (h : call.forgets version = true) :
    offered itemId stat c version (calls ++ [call]) = [] := by
  rw [offered, List.rtakeWhile_concat_neg _ _ _ (by simp [h])]
  rfl

theorem offered_concat (h : call.forgets version = false) :
    offered itemId stat c version (calls ++ [call]) =
      offered itemId stat c version calls ++ (call.offer? itemId stat c version).toList := by
  rw [offered, List.rtakeWhile_concat_pos _ _ _ (by simp [h]), List.filterMap_append]
  congr 1

/-- Calls that are about something else offer nothing and forget nothing. -/
theorem offered_filter_concerns (calls : List StoreCall) :
    offered itemId stat c version (calls.filter (concerns itemId stat c version)) =
      offered itemId stat c version calls := by
  induction calls using List.reverseRecOn with
  | nil => rfl
  | append_singleton calls call ih =>
    rw [List.filter_append, List.filter_singleton]
    cases hforgets : call.forgets version with
    | true =>
      have hconcerns : call.concerns itemId stat c version = true := by simp [concerns, hforgets]
      rw [hconcerns, cond_true, offered_concat_of_forgets hforgets,
        offered_concat_of_forgets hforgets]
    | false =>
      rw [offered_concat hforgets]
      cases hoffer : call.offer? itemId stat c version with
      | none =>
        have hconcerns : call.concerns itemId stat c version = false := by
          simp [concerns, hforgets, hoffer]
        rw [hconcerns, cond_false, List.append_nil, ih, Option.toList_none, List.append_nil]
      | some e =>
        have hconcerns : call.concerns itemId stat c version = true := by simp [concerns, hoffer]
        rw [hconcerns, cond_true, offered_concat hforgets, ih, hoffer]

end StoreCall

/-! ### The row of a request -/

/-- Requests that an entry is for have the same rows. -/
theorem SubtreeEntry.matches_eq (h : e.row.Matches itemId stat c version) :
    (fun row : SubtreeRow => decide (row.Matches e.itemId e.stat e.constraints e.version)) =
      fun row => decide (row.Matches itemId stat c version) := by
  obtain ⟨hitem, hstat, hconstraints, hversion⟩ :
    e.itemId = itemId ∧ e.stat = stat ∧ e.constraints.key = c.key ∧ e.version = version := h
  funext row
  refine decide_eq_decide.mpr ?_
  unfold SubtreeRow.Matches
  rw [hitem, hstat, hconstraints, hversion]

/-- The rows are those kept of some entries: the row of the last of the deepest, if there are
entries. -/
def SubtreeEntry.Kept (entries : List SubtreeEntry) (rows : List SubtreeRow) : Prop :=
  (entries = [] ∧ rows = []) ∨ ∃ e, LastDeepest entries e ∧ rows = [e.row]

namespace Transaction

/-- The rows of a request after a result was kept for it. -/
theorem filter_withSubtree (e : SubtreeEntry) (rows : List SubtreeRow) :
    (withSubtree e rows).filter
        (fun row => decide (row.Matches e.itemId e.stat e.constraints e.version)) =
      let old := rows.filter fun row =>
        decide (row.Matches e.itemId e.stat e.constraints e.version)
      (old.head?.map (deepened e)).getD e.row :: old.tail :=
  filter_hasKey_upsertRow (fun _ => matches_deepened e) (decide_eq_true ⟨rfl, rfl, rfl, rfl⟩)

/-- A row for the same request becomes that of the result, if the result reaches as deep. -/
theorem deepened_of_matches {old : SubtreeRow}
    (h : old.Matches e.itemId e.stat e.constraints e.version) (hdepth : old.depth ≤ e.depth) :
    deepened e old = e.row := by
  obtain ⟨_, _, _, _, _, _⟩ := old
  obtain ⟨rfl, rfl, rfl, rfl⟩ := h
  exact if_pos hdepth

/-- A result for the request replaces the row unless it reaches less deep. -/
theorem kept_withSubtree (hfor : e.row.Matches itemId stat c version)
    (h : SubtreeEntry.Kept entries
      (rows.filter fun row => decide (row.Matches itemId stat c version))) :
    SubtreeEntry.Kept (entries ++ [e])
      ((withSubtree e rows).filter fun row => decide (row.Matches itemId stat c version)) := by
  right
  rw [← SubtreeEntry.matches_eq hfor] at h ⊢
  rw [filter_withSubtree]
  rcases h with ⟨rfl, hrows⟩ | ⟨old, hold, hrows⟩
  · rw [hrows]
    exact ⟨e, SubtreeEntry.lastDeepest_singleton e, rfl⟩
  have hmatches : old.row.Matches e.itemId e.stat e.constraints e.version := by
    have hmem := hrows ▸ List.mem_singleton_self old.row
    exact of_decide_eq_true (List.mem_filter.mp hmem).2
  rw [hrows]
  by_cases hdepth : old.depth ≤ e.depth
  · exact ⟨e, hold.concat_of_le hdepth,
      congrArg (fun row => [row]) (deepened_of_matches hmatches (Int.ofNat_le.mpr hdepth))⟩
  · exact ⟨old, hold.concat_of_lt (Nat.lt_of_not_le hdepth),
      congrArg (fun row => [row]) (if_neg fun hle => hdepth (Int.ofNat_le.mp hle))⟩

/-- A result for another request leaves the row. -/
theorem filter_withSubtree_of_not (hfor : ¬ e.row.Matches itemId stat c version)
    (rows : List SubtreeRow) :
    (withSubtree e rows).filter (fun row => decide (row.Matches itemId stat c version)) =
      rows.filter fun row => decide (row.Matches itemId stat c version) := by
  refine filter_upsertRow_of_disjoint (fun _ => matches_deepened e)
    (decide_eq_true ⟨rfl, rfl, rfl, rfl⟩) fun row hrow => decide_eq_false fun hmatches => hfor ?_
  obtain ⟨hitem, hstat, hconstraints, hversion⟩ := of_decide_eq_true hrow
  exact ⟨hitem.symm.trans hmatches.1, hstat.symm.trans hmatches.2.1,
    hconstraints.symm.trans hmatches.2.2.1, hversion.symm.trans hmatches.2.2.2⟩

theorem purgeSubtrees_eq (h : s.subtrees = some rows) (version : String) :
    purgeSubtrees version s =
      .ok ((rows.filter fun row => row.version != version).length,
        s.put .subtrees (some (rows.filter fun row => row.version == version))) := by
  have hrows : s.rows? .subtrees = some rows := h
  rw [purgeSubtrees, rows_bind hrows]
  rfl

end Transaction

namespace Store

/-- Of some entries for a request the store keeps the last of the deepest. -/
def KeepsDeepest (s : Store) (itemId : String) (stat : Stat) (c : Constraints) (version : String)
    (entries : List SubtreeEntry) : Prop :=
  ∃ rows, s.subtrees = some rows ∧
    SubtreeEntry.Kept entries (rows.filter fun row => decide (row.Matches itemId stat c version))

/-- What a look-up answers about the entries for a request. -/
theorem KeepsDeepest.subtree? (h : s.KeepsDeepest itemId stat c version entries)
    (hread : ∀ e ∈ entries, e.depth ≤ maxDepth ∧ e.result.sums.Fit) (depth : Nat) :
    (s.subtree? itemId stat c version depth = .ok none ∧ ∀ e ∈ entries, e.depth < depth) ∨
      ∃ e, SubtreeEntry.LastDeepest entries e ∧ depth ≤ e.depth ∧
        s.subtree? itemId stat c version depth =
          .ok (some ⟨itemId, stat, c, version, e.depth, e.result⟩) := by
  obtain ⟨rows, hrows, hkept⟩ := h
  have hlookup : (rows.find? fun row =>
      decide (row.Matches itemId stat c version ∧ (depth : Int) ≤ row.depth)) =
      (rows.filter fun row => decide (row.Matches itemId stat c version)).find? fun row =>
        decide ((depth : Int) ≤ row.depth) := by
    rw [List.find?_filter]
    simp only [Bool.decide_and, Bool.decide_eq_true]
  rw [subtree?_eq hrows, hlookup]
  rcases hkept with ⟨rfl, hnone⟩ | ⟨e, he, hone⟩
  · rw [hnone]
    exact Or.inl ⟨rfl, nofun⟩
  rw [hone]
  by_cases hdepth : depth ≤ e.depth
  · right
    obtain ⟨hmax, hfit⟩ := hread e he.mem
    refine ⟨e, he, hdepth, ?_⟩
    have hreach : decide ((depth : Int) ≤ e.row.depth) = true :=
      decide_eq_true (Int.ofNat_le.mpr hdepth)
    simp only [List.find?_cons, hreach, SubtreeEntry.content_row hmax hfit]
    rfl
  · left
    refine ⟨?_, fun e' he' => (he.depth_le he').trans_lt (Nat.lt_of_not_le hdepth)⟩
    have hreach : decide ((depth : Int) ≤ e.row.depth) = false :=
      decide_eq_false fun hle => hdepth (Int.ofNat_le.mp hle)
    simp only [List.find?_cons, hreach, List.find?_nil]

open StoreCall (forgets offer? offered after)

/-- **One call**: a result for the request is added to the entries, and forgetting what is kept for
the version leaves none. -/
theorem KeepsDeepest.run (h : s.KeepsDeepest itemId stat c version entries) (call : StoreCall) :
    (call.run s).KeepsDeepest itemId stat c version
      (if call.forgets version then [] else
        entries ++ (call.offer? itemId stat c version).toList) := by
  obtain ⟨rows, hrows, hkept⟩ := h
  by_cases htable : call.table = .subtrees
  swap
  · -- Another table is written.
    have hentries : (if call.forgets version then [] else
        entries ++ (call.offer? itemId stat c version).toList) = entries := by
      cases call with
      | keep e => exact absurd rfl htable
      | purgeSubtrees version' => exact absurd rfl htable
      | _ => exact List.append_nil entries
    rw [hentries]
    exact ⟨rows, (call.rows?_run s (Ne.symm htable)).trans hrows, hkept⟩
  cases call with
  | keep e =>
    rw [StoreCall.run, Transaction.call_ok (Transaction.upsertSubtree_eq hrows e)]
    refine ⟨_, rfl, ?_⟩
    show SubtreeEntry.Kept (entries ++ (offer? itemId stat c version (.keep e)).toList) _
    by_cases hfor : e.row.Matches itemId stat c version
    · rw [offer?, if_pos hfor]
      exact Transaction.kept_withSubtree hfor hkept
    · rw [offer?, if_neg hfor, Transaction.filter_withSubtree_of_not hfor, Option.toList_none,
        List.append_nil]
      exact hkept
  | purgeSubtrees version' =>
    rw [StoreCall.run, Transaction.call_ok (Transaction.purgeSubtrees_eq hrows version')]
    refine ⟨_, rfl, ?_⟩
    rw [List.filter_filter]
    by_cases hversion : version' = version
    · -- The results for the version are the ones that stay.
      obtain rfl := hversion
      have hsame : (fun row : SubtreeRow =>
          decide (row.Matches itemId stat c version') && row.version == version') =
          fun row => decide (row.Matches itemId stat c version') := by
        funext row
        rw [Bool.and_eq_left_iff_imp]
        exact fun hrow => beq_iff_eq.mpr (of_decide_eq_true hrow).2.2.2
      rw [hsame, forgets, bne_self_eq_false]
      simpa [offer?] using hkept
    · have hnone : rows.filter (fun row =>
          decide (row.Matches itemId stat c version) && row.version == version') = [] := by
        refine List.filter_eq_nil_iff.mpr fun row _ hrow => hversion ?_
        obtain ⟨hmatches, hrow⟩ := Bool.and_eq_true_iff.mp hrow
        exact (beq_iff_eq.mp hrow).symm.trans (of_decide_eq_true hmatches).2.2.2
      rw [hnone, forgets, if_pos (bne_iff_ne.mpr hversion)]
      exact Or.inl ⟨rfl, rfl⟩
  | elsewhere _ ht _ _ =>
    obtain rfl := htable
    exact absurd (by decide) ht
  | _ => cases htable

/-- **A run of calls** keeps the last of the deepest of what it offers. -/
theorem keepsDeepest_after (h : s.subtrees = some []) (itemId : String) (stat : Stat)
    (c : Constraints) (version : String) (calls : List StoreCall) :
    (after calls s).KeepsDeepest itemId stat c version (offered itemId stat c version calls) := by
  induction calls using List.reverseRecOn with
  | nil => exact ⟨[], h, Or.inl ⟨rfl, rfl⟩⟩
  | append_singleton calls call ih =>
    have hrun := ih.run call
    rw [after, List.foldl_append]
    show (call.run (after calls s)).KeepsDeepest itemId stat c version _
    cases hforgets : call.forgets version with
    | true =>
      rw [StoreCall.offered_concat_of_forgets hforgets]
      rwa [if_pos hforgets] at hrun
    | false =>
      rw [StoreCall.offered_concat hforgets]
      rwa [hforgets] at hrun

end Store

namespace StoreCall

variable {calls : List StoreCall}

/-- What was offered was offered by a call. -/
theorem keep_mem_of_offered (he : e ∈ offered itemId stat c version calls) : .keep e ∈ calls := by
  obtain ⟨call, hcall, hoffer⟩ := List.mem_filterMap.mp he
  have hmem := (List.rtakeWhile_suffix _ _).subset hcall
  cases call with
  | keep e' =>
    rw [offer?] at hoffer
    split_ifs at hoffer
    · obtain rfl := Option.some.inj hoffer
      exact hmem
  | _ => cases hoffer

/-- **Kept results after any history.**  A look-up after a run of calls finds something exactly if a
result that reaches the depth was offered for the request since what is kept for its version was
last forgotten.  What it finds is the last of the deepest of these, and if it finds nothing then it
does not fail either.  Without the calls that are about other requests and versions it would answer
the same. -/
theorem kept_after (h : s.subtrees = some [])
    (hcalls : ∀ e, .keep e ∈ calls → e.depth ≤ maxDepth ∧ e.result.sums.Fit) :
    ((∃ found, (after calls s).subtree? itemId stat c version depth = .ok (some found)) ↔
      ∃ e ∈ offered itemId stat c version calls, depth ≤ e.depth) ∧
    (∀ found, (after calls s).subtree? itemId stat c version depth = .ok (some found) →
      ∃ e, SubtreeEntry.LastDeepest (offered itemId stat c version calls) e ∧
        found = ⟨itemId, stat, c, version, e.depth, e.result⟩) ∧
    ((∀ e ∈ offered itemId stat c version calls, e.depth < depth) →
      (after calls s).subtree? itemId stat c version depth = .ok none) ∧
    (after (calls.filter (concerns itemId stat c version)) s).subtree? itemId stat c version depth =
      (after calls s).subtree? itemId stat c version depth := by
  have hread : ∀ e ∈ offered itemId stat c version calls,
      e.depth ≤ maxDepth ∧ e.result.sums.Fit := fun e he => hcalls e (keep_mem_of_offered he)
  have hlookup := (Store.keepsDeepest_after h itemId stat c version calls).subtree? hread depth
  have hconcerned := Store.keepsDeepest_after h itemId stat c version
    (calls.filter (concerns itemId stat c version))
  rw [offered_filter_concerns] at hconcerned
  have hlookup' := hconcerned.subtree? hread depth
  rcases hlookup with ⟨hnone, hless⟩ | ⟨e, he, hdepth, hsome⟩
  · refine ⟨⟨fun ⟨found, hfound⟩ => ?_, fun ⟨e, he, hdepth⟩ => ?_⟩, fun found hfound => ?_,
      fun _ => hnone, ?_⟩
    · cases hnone.symm.trans hfound
    · exact absurd hdepth (hless e he).not_ge
    · cases hnone.symm.trans hfound
    · rcases hlookup' with ⟨hnone', -⟩ | ⟨e, he, hdepth, -⟩
      · exact hnone'.trans hnone.symm
      · exact absurd hdepth (hless e he.mem).not_ge
  · refine ⟨⟨fun _ => ⟨e, he.mem, hdepth⟩, fun _ => ⟨_, hsome⟩⟩, fun found hfound => ⟨e, he, ?_⟩,
      fun hless => ?_, ?_⟩
    · exact Option.some.inj (Except.ok.inj (hfound.symm.trans hsome))
    · exact absurd hdepth (hless e he.mem).not_ge
    · rcases hlookup' with ⟨-, hless⟩ | ⟨e', he', -, hsome'⟩
      · exact absurd hdepth (hless e he.mem).not_ge
      · rw [hsome', hsome, he'.unique he]

/-- A result for a rifle under one version of the catalogue. -/
def rifleEntry (version : String) (depth : Nat) (recoil : Int) : SubtreeEntry :=
  ⟨"w", .recoil, .ofLevels (.uniform 4), version, depth, ⟨"w", "Rifle", .recoil, ⟨recoil, 0⟩, []⟩⟩

/-- Results for two versions of the catalogue; the first of them is forgotten at once. -/
def rifleCalls : List StoreCall :=
  [.keep (rifleEntry "1" 5 90), .purgeSubtrees "2", .keep (rifleEntry "1" 4 80),
    .purgeSubtrees "1", .keep (rifleEntry "1" 2 60), .keep (rifleEntry "2" 7 50),
    .keep (rifleEntry "1" 4 70)]

/-- Of the two results that reach deepest the later one is kept. -/
theorem kept_after_sample :
    (after rifleCalls Store.fresh).subtree? "w" .recoil (.ofLevels (.uniform 4)) "1" 3 =
      .ok (some (rifleEntry "1" 4 70)) ∧
    (after rifleCalls Store.fresh).subtree? "w" .recoil (.ofLevels (.uniform 4)) "1" 5 =
      .ok none := by
  have hcalls : ∀ e, .keep e ∈ rifleCalls → e.depth ≤ maxDepth ∧ e.result.sums.Fit := by
    intro e he
    simp only [rifleCalls, List.mem_cons, keep.injEq, reduceCtorEq, List.not_mem_nil, or_false,
      false_or] at he
    rcases he with rfl | rfl | rfl | rfl | rfl <;>
      exact ⟨by decide, by constructor <;> constructor <;> decide⟩
  have hoffered : offered "w" .recoil (.ofLevels (.uniform 4)) "1" rifleCalls =
      [rifleEntry "1" 4 80, rifleEntry "1" 2 60, rifleEntry "1" 4 70] := by rfl
  have hlast : SubtreeEntry.LastDeepest
      (offered "w" .recoil (.ofLevels (.uniform 4)) "1" rifleCalls) (rifleEntry "1" 4 70) :=
    ⟨[rifleEntry "1" 4 80, rifleEntry "1" 2 60], [], hoffered, by decide, nofun⟩
  obtain ⟨hhit, hlatest, -, -⟩ := @kept_after "w" "1" .recoil (.ofLevels (.uniform 4)) 3
    Store.fresh rifleCalls rfl hcalls
  obtain ⟨-, -, hnone, -⟩ := @kept_after "w" "1" .recoil (.ofLevels (.uniform 4)) 5
    Store.fresh rifleCalls rfl hcalls
  obtain ⟨found, hfound⟩ := hhit.mpr ⟨_, hlast.mem, by decide⟩
  obtain ⟨e, he, rfl⟩ := hlatest found hfound
  obtain rfl := he.unique hlast
  refine ⟨hfound, hnone ?_⟩
  rw [hoffered]
  decide

end StoreCall

end Gunsmith
