/-
  When a failing source ends a build.

  The calls that an expansion makes are listed in the order in which it makes them, depth
  first (`callsOf`).  They are those that the tree needs (`Needed`): the slots of everything
  that stands in the expansion, what fits the slots that are opened, the offers for all that
  is not excluded there, and the properties of what is mounted.

  A reading that goes through some calls (`Reading.Through`) is not touched by failures of
  other calls, and ends with the failure of the first of its calls that fails.  Readings that
  follow each other go through the calls of the one and then those of the other
  (`Reading.Through.bind`), so by induction on the depth an expansion goes through `callsOf`
  (`through_expand`), and a build fails exactly where it reaches a failing call
  (`CandidateTree.faults_exact`).
-/
import Gunsmith.Proofs.Tree.Guard

namespace Gunsmith

/-! ### Calls -/

/-- A question to the source, with the item that a failure is laid to. -/
structure Call where
  question : Question
  id : String
  about : String
deriving DecidableEq, Inhabited

/-- What a failing call means for the evaluation, if it is to fail. -/
def Call.failure? (faults : List Fault) (call : Call) : Option EvalError :=
  (Fault.find? faults call.question call.id).map (EvalError.ofRead call.about)

/-- The entries of an answer, none if there is no answer. -/
def entries {α : Type} : Except StoreError (List α) → List α
  | .ok xs => xs
  | .error _ => []

section Calls

variable (p : Provider Id) (c : Constraints)

/-- The calls made for an item that fits a slot, if those for its expansion are `below`. -/
def callsFor (chain : List Placement) (slotId : String) (item : AllowedItem) (below : List Call) :
    List Call :=
  if c.Excludes item.id then []
  else
    ⟨.offers, item.id, item.id⟩ ::
      if c.levels.CanPurchase (entries (p.offers item.id)) ∧ ⟨item.id, slotId⟩ ∉ chain then
        ⟨.properties, item.id, item.id⟩ :: below
      else []

/-- The calls made for the expansion of an item down to a depth, in order. -/
def callsOf : Nat → List Placement → String → List Call
  | 0, _, id => [⟨.slots, id, id⟩]
  | depth + 1, chain, id =>
    ⟨.slots, id, id⟩ ::
      ((entries (p.slots id)).filter fun row => ¬ c.Ignores row.name).flatMap fun row =>
        ⟨.allowed, row.id, id⟩ :: (entries (p.allowed row.id)).flatMap fun item =>
          callsFor p c chain row.id item (callsOf depth (⟨item.id, row.id⟩ :: chain) item.id)

end Calls

/-! ### Readings through calls -/

namespace Reading

variable {α β : Type} {faults : List Fault} {calls calls' : List Call} {a : α} {b : β}

/-- The reading ends with the failure of the first of the calls that is to fail, and with the result
`a` if none is. -/
def Through (faults : List Fault) (calls : List Call) (x : Reading Id α) (a : α) : Prop :=
  x.run = match calls.findSome? (Call.failure? faults) with
    | some e => Except.error e
    | none => Except.ok a

theorem Through.pure : Through faults [] (pure a : Reading Id α) a := rfl

theorem Through.bind {x : Reading Id α} {f : α → Reading Id β} (hx : Through faults calls x a)
    (hf : Through faults calls' (f a) b) : Through faults (calls ++ calls') (x >>= f) b := by
  unfold Through at hx hf ⊢
  rw [List.findSome?_append, ExceptT.run_bind, hx]
  rcases calls.findSome? (Call.failure? faults) with _ | e
  · exact hf
  · rfl

/-- A question that would be answered goes through its own call. -/
theorem Through.ask {question : Question} {id about : String}
    {answer : String → Except StoreError α} (h : answer id = .ok a) :
    Through faults [⟨question, id, about⟩]
      (Reading.ask about (Fault.guard (m := Id) faults question answer id)) a := by
  unfold Through
  rw [List.findSome?_singleton, Call.failure?]
  unfold Fault.guard
  rcases hfind : Fault.find? faults question id with _ | e
  · exact ask_of_ok h
  · rfl

/-- What is computed from the result of a reading needs no further calls. -/
theorem Through.bind_pure {x : Reading Id α} {f : α → Reading Id β} (hx : Through faults calls x a)
    (hf : f a = Pure.pure b) : Through faults calls (x >>= f) b := by
  rw [← List.append_nil calls]
  refine hx.bind ?_
  rw [hf]
  exact Through.pure

theorem Through.mapM {xs : List α} {ys : List β} {f : α → Reading Id β} {calls : α → List Call}
    (h : List.Forall₂ (fun x y => Through faults (calls x) (f x) y) xs ys) :
    Through faults (xs.flatMap calls) (xs.mapM f) ys := by
  induction h with
  | nil => exact Through.pure
  | @cons x y xs ys hxy _ ih =>
    rw [List.mapM_cons, List.flatMap_cons]
    exact hxy.bind (ih.bind_pure rfl)

/-- The numbers of the entries do not matter for the calls. -/
theorem Through.mapM_zipIdx {xs : List α} {ys : List β} {f : α × Nat → Reading Id β}
    {calls : α → List Call}
    (h : List.Forall₂ (fun x y => Through faults (calls x.1) (f x) y) xs.zipIdx ys) :
    Through faults (xs.flatMap calls) (xs.zipIdx.mapM f) ys := by
  have hmap := Through.mapM h
  rwa [← List.flatMap_map (f := Prod.fst) (g := calls), List.zipIdx_map_fst] at hmap

end Reading

/-! ### Expansions go through their calls -/

section Expansion

open Reading

variable {p : Provider Id} {c : Constraints} {faults : List Fault} {chain : List Placement}
  {address : List Nat} {depth i j : Nat} {row : SlotRecord} {slotId : String} {item : AllowedItem}
  {below : List Call} {offers : List Offer}

theorem callsFor_excluded (hex : c.Excludes item.id) :
    callsFor p c chain slotId item below = [] :=
  if_pos hex

/-- For what is considered and not mounted, only the offers are asked for. -/
theorem callsFor_passed (hex : ¬ c.Excludes item.id) (hoffers : p.offers item.id = .ok offers)
    (hpass : ¬ (c.levels.CanPurchase offers ∧ ⟨item.id, slotId⟩ ∉ chain)) :
    callsFor p c chain slotId item below = [⟨.offers, item.id, item.id⟩] := by
  rw [callsFor, if_neg hex, hoffers, entries, if_neg hpass]

theorem callsFor_mounted (hex : ¬ c.Excludes item.id) (hoffers : p.offers item.id = .ok offers)
    (hbuy : c.levels.CanPurchase offers) (hnew : ⟨item.id, slotId⟩ ∉ chain) :
    callsFor p c chain slotId item below =
      ⟨.offers, item.id, item.id⟩ :: ⟨.properties, item.id, item.id⟩ :: below := by
  rw [callsFor, if_neg hex, hoffers, entries, if_pos ⟨hbuy, hnew⟩]

/-- The calls for the expansion of an item come last, and only if it is mounted. -/
theorem Considered.callsFor_eq {v : Verdict Label} (h : Considered p c chain slotId item v) :
    callsFor p c chain slotId item below =
      callsFor p c chain slotId item [] ++ if v.part?.isSome then below else [] := by
  cases h with
  | excluded hex =>
    rw [callsFor_excluded hex, callsFor_excluded hex]
    rfl
  | unsold hex hoffers hbuy =>
    rw [callsFor_passed hex hoffers fun h => hbuy h.1, callsFor_passed hex hoffers fun h => hbuy h.1]
    rfl
  | cyclic hex hoffers _ hchain =>
    rw [callsFor_passed hex hoffers fun h => h.2 hchain,
      callsFor_passed hex hoffers fun h => h.2 hchain]
    rfl
  | mounted hex hoffers hbuy hchain _ =>
    rw [callsFor_mounted hex hoffers hbuy hchain, callsFor_mounted hex hoffers hbuy hchain]
    rfl

/-- What is considered for a slot goes through the calls that are made before its expansion. -/
theorem Considered.through {v : Verdict Label} (h : Considered p c chain slotId item v) :
    Through faults (callsFor p c chain slotId item [])
      (consider (p.withFaults faults) c chain slotId item) v := by
  unfold consider
  cases h with
  | excluded hex =>
    rw [callsFor_excluded hex, if_pos hex]
    exact Through.pure
  | unsold hex hoffers hbuy =>
    rw [callsFor_passed hex hoffers fun h => hbuy h.1, if_neg hex]
    refine (Through.ask hoffers).bind_pure ?_
    rw [if_pos hbuy]
  | cyclic hex hoffers hbuy hchain =>
    rw [callsFor_passed hex hoffers fun h => h.2 hchain, if_neg hex]
    refine (Through.ask hoffers).bind_pure ?_
    rw [if_neg (not_not.mpr hbuy), if_pos hchain]
  | mounted hex hoffers hbuy hchain hfound =>
    rw [callsFor_mounted hex hoffers hbuy hchain, if_neg hex]
    refine (Through.ask hoffers).bind ?_
    rw [if_neg (not_not.mpr hbuy), if_neg hchain]
    exact (Through.ask hfound).bind_pure rfl

theorem Considered.label_id {label : Label}
    (h : Considered p c chain slotId item (.mounted label)) : label.id = item.id := by
  cases h
  rfl

/-- What became of an item that fits a slot, if its expansion goes through some calls. -/
theorem Settled.through {v : Verdict Part}
    (h : Settled p c depth chain address i row item j v)
    (hbelow : ∀ label part, label.id = item.id →
      (expand p c depth (⟨item.id, row.id⟩ :: chain) (j :: i :: address) label).run =
        Except.ok part →
      Through faults below
        (expand (p.withFaults faults) c depth (⟨item.id, row.id⟩ :: chain) (j :: i :: address)
          label) part) :
    Through faults (callsFor p c chain row.id item below)
      (do
        match ← consider (p.withFaults faults) c chain row.id item with
        | .mounted label =>
          let part ← expand (p.withFaults faults) c depth (⟨item.id, row.id⟩ :: chain)
            (j :: i :: address) label
          return (item.id, Verdict.mounted part)
        | .cyclic => return (item.id, Verdict.cyclic)
        | .unavailable => return (item.id, Verdict.unavailable)) (item.id, v) := by
  cases h with
  | unavailable hcons =>
    rw [hcons.callsFor_eq]
    exact hcons.through.bind Through.pure
  | cyclic hcons =>
    rw [hcons.callsFor_eq]
    exact hcons.through.bind Through.pure
  | mounted hcons hx =>
    rw [hcons.callsFor_eq]
    exact hcons.through.bind ((hbelow _ _ hcons.label_id hx).bind_pure rfl)

/-- **An expansion goes through its calls.** -/
theorem through_expand (faults : List Fault) (depth : Nat) : ∀ {chain : List Placement}
    {address : List Nat} {label : Label} {part : Part},
    (expand p c depth chain address label).run = Except.ok part →
    Through faults (callsOf p c depth chain label.id)
      (expand (p.withFaults faults) c depth chain address label) part := by
  -- On the depth: what is mounted in a slot is expanded with one step less.
  induction depth with
  | zero =>
    intro chain address label part h
    obtain ⟨rows, hrows, rfl⟩ := expand_zero_ok h
    rw [expand, callsOf]
    exact (Through.ask hrows).bind_pure rfl
  | succ depth ih =>
    intro chain address label part h
    obtain ⟨rows, slots, hrows, rfl, hslots⟩ := expand_succ_ok h
    rw [expand, callsOf, hrows, entries, ← List.singleton_append]
    refine (Through.ask hrows).bind (Through.bind_pure (a := slots) ?_ rfl)
    refine Through.mapM_zipIdx (hslots.imp ?_)
    rintro ⟨row, i⟩ slot ⟨allowed, verdicts, hslot⟩
    dsimp only
    rw [hslot.read, entries, ← List.singleton_append]
    refine (Through.ask hslot.read).bind (Through.bind_pure (a := verdicts) ?_ ?_)
    -- What fits is settled one by one, and the slot is put together from that without a call.
    · refine Through.mapM_zipIdx (hslot.settled.imp ?_)
      rintro ⟨item, j⟩ ⟨id, v⟩ ⟨hname, hsettled⟩
      obtain rfl : id = item.id := hname
      refine hsettled.through fun label part hid hx => ?_
      rw [← hid]
      exact ih (hid ▸ hx)
    · obtain ⟨site, candidates⟩ := slot
      have hsite : site = _ := hslot.site
      have hcandidates : candidates = _ := hslot.candidates
      rw [hsite, hcandidates]

end Expansion

/-! ### Needed calls -/

/-- The slot is opened for an item: the catalogue has it, and it is not ignored. -/
structure Opened (p : Provider Id) (c : Constraints) (id : String) (row : SlotRecord) : Prop where
  listed : ∃ rows, p.slots id = .ok rows ∧ row ∈ rows
  kept : ¬ c.Ignores row.name

/-- The item is considered for a slot: it fits, and it is not excluded. -/
structure Eligible (p : Provider Id) (c : Constraints) (slotId : String) (item : AllowedItem) :
    Prop where
  fits : ∃ allowed, p.allowed slotId = .ok allowed ∧ item ∈ allowed
  included : ¬ c.Excludes item.id

/-- The calls that are needed for the expansion of an item that stands at the end of a chain, with
some depth left. -/
inductive Needed (p : Provider Id) (c : Constraints) (depth : Nat) (chain₀ : List Placement)
    (top : Part) : Call → Prop
  /-- The slots of everything that stands in the tree. -/
  | slots {chain : List Placement} {x : Part} (hx : top.Stands chain x) :
    Needed p c depth chain₀ top ⟨.slots, x.id, x.id⟩
  /-- What fits the slots of items above the depth limit. -/
  | allowed {chain : List Placement} {x : Part} {row : SlotRecord} (hx : top.Stands chain x)
    (hdepth : chain.length < depth) (hrow : Opened p c x.id row) :
    Needed p c depth chain₀ top ⟨.allowed, row.id, x.id⟩
  /-- The offers for what is considered there. -/
  | offers {chain : List Placement} {x : Part} {row : SlotRecord} {item : AllowedItem}
    (hx : top.Stands chain x) (hdepth : chain.length < depth) (hrow : Opened p c x.id row)
    (hitem : Eligible p c row.id item) : Needed p c depth chain₀ top ⟨.offers, item.id, item.id⟩
  /-- The properties of what can be had and is not kept out by the cycle guard. -/
  | properties {chain : List Placement} {x : Part} {row : SlotRecord} {item : AllowedItem}
    (hx : top.Stands chain x) (hdepth : chain.length < depth) (hrow : Opened p c x.id row)
    (hitem : Eligible p c row.id item) (hbuy : Obtainable p c item.id)
    (hnew : ⟨item.id, row.id⟩ ∉ chain ++ chain₀) :
    Needed p c depth chain₀ top ⟨.properties, item.id, item.id⟩

section Needed

variable {p : Provider Id} {c : Constraints} {chain chain₀ : List Placement} {depth : Nat}
  {top part d x : Part} {s : Slot} {row : SlotRecord} {item : AllowedItem} {id slotId : String}
  {call : Call} {below : List Call}

theorem mem_entries {α : Type} {answer : Except StoreError (List α)} {a : α} :
    a ∈ entries answer ↔ ∃ xs, answer = .ok xs ∧ a ∈ xs := by
  rcases answer with e | xs
  · exact ⟨fun h => absurd h List.not_mem_nil, fun ⟨_, h, _⟩ => absurd h nofun⟩
  · exact ⟨fun h => ⟨xs, rfl, h⟩, fun ⟨_, h, ha⟩ => Except.ok.inj h ▸ ha⟩

theorem obtainable_iff_entries : Obtainable p c id ↔
    ¬ c.Excludes id ∧ c.levels.CanPurchase (entries (p.offers id)) := by
  refine and_congr_right fun _ => ?_
  rcases hoffers : p.offers id with e | offers
  · refine ⟨fun ⟨_, h, _⟩ => absurd h nofun, fun hbuy => ?_⟩
    obtain ⟨o, ho, -⟩ := hbuy
    exact absurd ho List.not_mem_nil
  · exact ⟨fun ⟨_, h, hbuy⟩ => Except.ok.inj h ▸ hbuy, fun hbuy => ⟨offers, rfl, hbuy⟩⟩

theorem mem_callsFor : call ∈ callsFor p c chain slotId item below ↔ ¬ c.Excludes item.id ∧
    (call = ⟨.offers, item.id, item.id⟩ ∨ (Obtainable p c item.id ∧ ⟨item.id, slotId⟩ ∉ chain ∧
      (call = ⟨.properties, item.id, item.id⟩ ∨ call ∈ below))) := by
  unfold callsFor
  by_cases hex : c.Excludes item.id
  · rw [if_pos hex]
    exact ⟨fun h => absurd h List.not_mem_nil, fun h => absurd hex h.1⟩
  rw [if_neg hex, List.mem_cons, obtainable_iff_entries]
  by_cases hmount : c.levels.CanPurchase (entries (p.offers item.id)) ∧ ⟨item.id, slotId⟩ ∉ chain
  · rw [if_pos hmount, List.mem_cons]
    simp only [hex, hmount, not_false_eq_true, true_and]
  · rw [if_neg hmount]
    simp only [hex, not_false_eq_true, true_and, List.not_mem_nil, or_false]
    refine ⟨Or.inl, fun h => h.resolve_right fun h => hmount ⟨h.1, h.2.1⟩⟩

theorem mem_callsOf_succ : call ∈ callsOf p c (depth + 1) chain id ↔
    call = ⟨.slots, id, id⟩ ∨ ∃ row, Opened p c id row ∧ (call = ⟨.allowed, row.id, id⟩ ∨
      ∃ item, Eligible p c row.id item ∧ (call = ⟨.offers, item.id, item.id⟩ ∨
        (Obtainable p c item.id ∧ ⟨item.id, row.id⟩ ∉ chain ∧
          (call = ⟨.properties, item.id, item.id⟩ ∨
            call ∈ callsOf p c depth (⟨item.id, row.id⟩ :: chain) item.id)))) := by
  rw [callsOf, List.mem_cons, List.mem_flatMap]
  refine or_congr Iff.rfl (exists_congr fun row => and_congr ?_ ?_)
  · rw [List.mem_filter, mem_entries, decide_eq_true_eq]
    exact ⟨fun h => ⟨h.1, h.2⟩, fun h => ⟨h.listed, h.kept⟩⟩
  · rw [List.mem_cons, List.mem_flatMap]
    refine or_congr Iff.rfl (exists_congr fun item => ?_)
    rw [mem_entries, mem_callsFor, ← and_assoc]
    exact and_congr_left fun _ => ⟨fun h => ⟨h.1, h.2⟩, fun h => ⟨h.fits, h.included⟩⟩

/-- A candidate is considered for a slot that is opened, can be had, and is new on the chain. -/
theorem ExpandedAt.origin (h : ExpandedAt p c depth chain part) (hs : s ∈ part.slots)
    (hd : d ∈ s.candidates) : ∃ row item, s.site.id = row.id ∧ d.id = item.id ∧
      Opened p c part.id row ∧ Eligible p c row.id item ∧ Obtainable p c item.id ∧
      ⟨item.id, row.id⟩ ∉ chain := by
  obtain ⟨address, label, -, h⟩ := h
  cases depth with
  | zero =>
    obtain ⟨rows, -, rfl⟩ := expand_zero_ok h
    exact absurd hs List.not_mem_nil
  | succ depth =>
    obtain ⟨rows, slots, hrows, rfl, hslots⟩ := expand_succ_ok h
    obtain ⟨⟨row, i⟩, hrow, allowed, verdicts, hslot⟩ := exists_of_forall₂ hslots hs
    obtain ⟨hmem, hkept⟩ := List.mem_filter.mp (List.fst_mem_of_mem_zipIdx hrow)
    obtain ⟨item, hitem, j, hsettled⟩ := hslot.settled_of_mem hd
    refine ⟨row, item, by rw [hslot.site], ?_⟩
    cases hsettled with
    | mounted hcons hx =>
      obtain ⟨cut, hlabel⟩ := expand_label hx
      have hhad := hcons.obtainable_iff.mpr nofun
      refine ⟨?_, ⟨⟨rows, hrows, hmem⟩, of_decide_eq_true hkept⟩,
        ⟨⟨allowed, hslot.read, hitem⟩, hhad.1⟩, hhad, ?_⟩
      · rw [Part.id, hlabel]
        exact hcons.label_id
      · cases hcons with
        | mounted _ _ _ hnew _ => exact hnew

/-- What is considered for a slot that is opened, can be had, and is new on the chain is a
candidate. -/
theorem ExpandedAt.exists_candidate (h : ExpandedAt p c (depth + 1) chain part)
    (hrow : Opened p c part.id row) (hitem : Eligible p c row.id item)
    (hhad : Obtainable p c item.id) (hnew : ⟨item.id, row.id⟩ ∉ chain) :
    ∃ s ∈ part.slots, s.site.id = row.id ∧ ∃ d ∈ s.candidates, d.id = item.id := by
  obtain ⟨address, label, -, h⟩ := h
  obtain ⟨rows, slots, hrows, rfl, hslots⟩ := expand_succ_ok h
  obtain ⟨⟨rows', hrows', hmem⟩, hkept⟩ := hrow
  obtain rfl : rows = rows' := Except.ok.inj (hrows.symm.trans hrows')
  have hmem : row ∈ rows.filter fun row => ¬ c.Ignores row.name :=
    List.mem_filter.mpr ⟨hmem, decide_eq_true hkept⟩
  rw [← List.zipIdx_map_fst 0 (rows.filter _)] at hmem
  obtain ⟨⟨_, i⟩, hi, rfl⟩ := List.mem_map.mp hmem
  obtain ⟨s, hs, allowed, verdicts, hslot⟩ := exists_of_forall₂ hslots.flip hi
  refine ⟨s, hs, by rw [hslot.site], ?_⟩
  obtain ⟨⟨allowed', hread, hmem⟩, -⟩ := hitem
  obtain rfl : allowed = allowed' := Except.ok.inj (hslot.read.symm.trans hread)
  rw [← List.zipIdx_map_fst 0 allowed] at hmem
  obtain ⟨⟨_, j⟩, hj, rfl⟩ := List.mem_map.mp hmem
  obtain ⟨v, hv, -, hsettled⟩ := exists_of_forall₂ hslot.settled.flip hj
  obtain ⟨name, v⟩ := v
  cases hsettled with
  | unavailable hcons => exact absurd rfl (hcons.obtainable_iff.mp hhad)
  | cyclic hcons =>
    cases hcons with
    | cyclic _ _ _ hchain => exact absurd hchain hnew
  | @mounted label d hcons hx =>
    refine ⟨d, ?_, ?_⟩
    · rw [hslot.candidates]
      exact List.mem_filterMap.mpr ⟨_, hv, rfl⟩
    · obtain ⟨cut, hlabel⟩ := expand_label hx
      rw [Part.id, hlabel]
      exact hcons.label_id

/-- What is needed below a candidate is needed. -/
theorem Needed.of_candidate (hs : s ∈ part.slots) (hd : d ∈ s.candidates)
    (h : Needed p c depth (⟨d.id, s.site.id⟩ :: chain) d call) :
    Needed p c (depth + 1) chain part call := by
  have hlength : ∀ {chain' : List Placement}, chain'.length < depth →
      (chain' ++ [(⟨d.id, s.site.id⟩ : Placement)]).length < depth + 1 := by
    intro chain' hdepth
    rw [List.length_append, List.length_singleton]
    omega
  cases h with
  | slots hx => exact Needed.slots (hx.prepend hs hd)
  | allowed hx hdepth hrow => exact Needed.allowed (hx.prepend hs hd) (hlength hdepth) hrow
  | offers hx hdepth hrow hitem =>
    exact Needed.offers (hx.prepend hs hd) (hlength hdepth) hrow hitem
  | properties hx hdepth hrow hitem hhad hnew =>
    refine Needed.properties (hx.prepend hs hd) (hlength hdepth) hrow hitem hhad ?_
    rw [List.append_assoc]
    exact hnew

/-- The calls for what stands in an expansion are among the calls for the top. -/
theorem ExpandedAt.callsOf_subset (h : ExpandedAt p c depth chain₀ top)
    (hx : top.Stands chain x) : ∃ rest, rest + chain.length = depth ∧
      ExpandedAt p c rest (chain ++ chain₀) x ∧
      callsOf p c rest (chain ++ chain₀) x.id ⊆ callsOf p c depth chain₀ top.id := by
  induction hx with
  | top => exact ⟨depth, rfl, h, List.Subset.refl _⟩
  | @mount chain part d s _ hs hd ih =>
    obtain ⟨rest, hrest, hpart, hsub⟩ := ih
    obtain ⟨rest', rfl, hd', -⟩ := hpart.candidate hs hd
    refine ⟨rest', ?_, hd', fun call hcall => hsub ?_⟩
    · rw [List.length_cons]
      omega
    · obtain ⟨row, item, hslotId, hid, hrow, hitem, hhad, hnew⟩ := hpart.origin hs hd
      rw [hslotId, hid] at hcall
      exact mem_callsOf_succ.mpr (Or.inr ⟨row, hrow, Or.inr ⟨item, hitem,
        Or.inr ⟨hhad, hnew, Or.inr hcall⟩⟩⟩)

/-- The calls that an expansion makes are needed. -/
theorem ExpandedAt.needed_of_mem (h : ExpandedAt p c depth chain part)
    (hcall : call ∈ callsOf p c depth chain part.id) : Needed p c depth chain part call := by
  -- A call for the expansion of an item is made only if the item is a candidate of the slot.
  induction depth generalizing chain part with
  | zero =>
    rw [callsOf, List.mem_singleton] at hcall
    rw [hcall]
    exact Needed.slots Part.Stands.top
  | succ depth ih =>
    have hdepth : ([] : List Placement).length < depth + 1 := Nat.succ_pos depth
    rcases mem_callsOf_succ.mp hcall with rfl | ⟨row, hrow, rfl | ⟨item, hitem, hcall⟩⟩
    · exact Needed.slots Part.Stands.top
    · exact Needed.allowed Part.Stands.top hdepth hrow
    rcases hcall with rfl | ⟨hhad, hnew, rfl | hbelow⟩
    · exact Needed.offers Part.Stands.top hdepth hrow hitem
    · exact Needed.properties Part.Stands.top hdepth hrow hitem hhad hnew
    · obtain ⟨s, hs, hslotId, d, hd, hid⟩ := h.exists_candidate hrow hitem hhad hnew
      obtain ⟨depth', hdepth', hd', -⟩ := h.candidate hs hd
      obtain rfl : depth = depth' := Nat.succ.inj hdepth'
      refine Needed.of_candidate hs hd (ih hd' ?_)
      rw [hid, hslotId]
      exact hbelow

/-- **Exactly the needed calls are made.** -/
theorem ExpandedAt.mem_callsOf_iff (h : ExpandedAt p c depth chain part) :
    call ∈ callsOf p c depth chain part.id ↔ Needed p c depth chain part call := by
  refine ⟨h.needed_of_mem, fun hneeded => ?_⟩
  -- Whatever is needed for an item is among the calls of one level of its expansion.
  have hlevel : ∀ {chain' : List Placement} {x : Part}, part.Stands chain' x →
      chain'.length < depth → ∃ rest, callsOf p c (rest + 1) (chain' ++ chain) x.id ⊆
        callsOf p c depth chain part.id := by
    intro chain' x hx hdepth
    obtain ⟨rest, hrest, -, hsub⟩ := h.callsOf_subset hx
    obtain ⟨rest', rfl⟩ : ∃ n, rest = n + 1 := ⟨rest - 1, by omega⟩
    exact ⟨rest', hsub⟩
  cases hneeded with
  | slots hx =>
    obtain ⟨rest, -, -, hsub⟩ := h.callsOf_subset hx
    refine hsub ?_
    cases rest <;> exact List.mem_cons_self
  | allowed hx hdepth hrow =>
    obtain ⟨rest, hsub⟩ := hlevel hx hdepth
    exact hsub (mem_callsOf_succ.mpr (Or.inr ⟨_, hrow, Or.inl rfl⟩))
  | offers hx hdepth hrow hitem =>
    obtain ⟨rest, hsub⟩ := hlevel hx hdepth
    exact hsub (mem_callsOf_succ.mpr (Or.inr ⟨_, hrow, Or.inr ⟨_, hitem, Or.inl rfl⟩⟩))
  | properties hx hdepth hrow hitem hhad hnew =>
    obtain ⟨rest, hsub⟩ := hlevel hx hdepth
    exact hsub (mem_callsOf_succ.mpr (Or.inr ⟨_, hrow, Or.inr ⟨_, hitem,
      Or.inr ⟨hhad, hnew, Or.inl rfl⟩⟩⟩))

end Needed

/-! ### Failures -/

/-- The failure says what the answer `cause` to a question about an item means: a record that is
missing is the answer itself, and everything else may not last and names the item. -/
def EvalError.Tells (about : String) (cause : StoreError) (e : EvalError) : Prop :=
  match cause with
  | .notFound entity id => e = .notFound entity id ∧ ¬ e.Transient
  | cause => e = .construction about cause ∧ e.Transient

theorem EvalError.tells_ofRead (about : String) (cause : StoreError) :
    (EvalError.ofRead about cause).Tells about cause := by
  cases cause with
  | notFound entity id => exact ⟨rfl, fun h => h⟩
  | _ => exact ⟨rfl, trivial⟩

/-- The call is to fail for a cause. -/
def Call.Fails (faults : List Fault) (call : Call) (cause : StoreError) : Prop :=
  Fault.find? faults call.question call.id = some cause

instance (faults : List Fault) (call : Call) (cause : StoreError) :
    Decidable (call.Fails faults cause) :=
  inferInstanceAs (Decidable (_ = _))

/-- The first of some calls that is to fail. -/
theorem Call.exists_first {faults : List Fault} {calls : List Call} {e : EvalError}
    (h : calls.findSome? (Call.failure? faults) = some e) :
    ∃ before call after cause, calls = before ++ call :: after ∧
      (∀ earlier ∈ before, ∀ cause, ¬ earlier.Fails faults cause) ∧ call.Fails faults cause ∧
      EvalError.ofRead call.about cause = e := by
  obtain ⟨before, call, after, hcalls, hfails, hbefore⟩ := List.findSome?_eq_some_iff.mp h
  obtain ⟨cause, hcause, he⟩ := Option.map_eq_some_iff.mp hfails
  refine ⟨before, call, after, cause, hcalls, fun earlier hmem cause hcause => ?_, hcause, he⟩
  have hnone := hbefore earlier hmem
  rw [Call.failure?, hcause] at hnone
  exact absurd hnone nofun

/-! ### Built trees -/

namespace CandidateTree

variable {p : Provider Id} {c : Constraints} {maxDepth : Nat} {weaponId : String} {stat : Stat}
  {tree : CandidateTree}

/-- The calls made by a build for a weapon under an id, in order; the weapon itself has the id
`rootId`. -/
def buildCalls (p : Provider Id) (c : Constraints) (maxDepth : Nat) (weaponId rootId : String) :
    List Call :=
  ⟨.weapon, weaponId, weaponId⟩ :: callsOf p c maxDepth [] rootId

/-- A build goes through its calls. -/
theorem through_build {part : Part} (stat : Stat) (faults : List Fault)
    (h : (expansion p maxDepth weaponId c).run = Except.ok part) :
    Reading.Through faults (buildCalls p c maxDepth weaponId part.id)
      (build (p.withFaults faults) maxDepth weaponId stat c)
      (ofExpansion maxDepth stat c part) := by
  obtain ⟨w, hvalid, hw, hexpand⟩ := expansion_ok h
  have hid : part.id = (rootLabel w).id := by
    obtain ⟨cut, hlabel⟩ := expand_label hexpand
    rw [Part.id, hlabel]
  rw [build, expansion, hvalid, buildCalls, hid, ← List.singleton_append]
  exact ((Reading.Through.ask hw).bind (through_expand faults maxDepth hexpand)).bind_pure rfl

/-- **Failures of the source end a build exactly where they are reached.**  The calls of a build
that succeeds are the needed ones, in depth-first order.  If some calls are made to fail, and none
of these is needed, then the same tree is built; otherwise the build ends with what the first call
that fails tells. -/
theorem faults_exact (hbuild : (build p maxDepth weaponId stat c).run = Except.ok tree)
    (faults : List Fault) :
    ∃ part, (expansion p maxDepth weaponId c).run = Except.ok part ∧
      (∀ call, call ∈ buildCalls p c maxDepth weaponId part.id ↔
        call = ⟨.weapon, weaponId, weaponId⟩ ∨ Needed p c maxDepth [] part call) ∧
      ((∀ call ∈ buildCalls p c maxDepth weaponId part.id, ∀ cause, ¬ call.Fails faults cause) →
        (build (p.withFaults faults) maxDepth weaponId stat c).run = Except.ok tree) ∧
      ((∃ call ∈ buildCalls p c maxDepth weaponId part.id, ∃ cause, call.Fails faults cause) →
        ∃ before call after cause e,
          buildCalls p c maxDepth weaponId part.id = before ++ call :: after ∧
          (∀ earlier ∈ before, ∀ cause, ¬ earlier.Fails faults cause) ∧
          call.Fails faults cause ∧ e.Tells call.about cause ∧
          (build (p.withFaults faults) maxDepth weaponId stat c).run = Except.error e) := by
  obtain ⟨part, hpart, -, rfl⟩ := build_ok hbuild
  have hthrough := through_build stat faults hpart
  refine ⟨part, hpart, fun call => ?_, fun hnone => ?_, fun hsome => ?_⟩
  · rw [buildCalls, List.mem_cons, (expandedAt_of_expansion hpart).mem_callsOf_iff]
  · have hpass : (buildCalls p c maxDepth weaponId part.id).findSome? (Call.failure? faults) =
        none := by
      refine List.findSome?_eq_none_iff.mpr fun call hcall => ?_
      exact Option.map_eq_none_iff.mpr (Option.eq_none_iff_forall_ne_some.mpr (hnone call hcall))
    rw [Reading.Through, hpass] at hthrough
    exact hthrough
  · rcases hfirst : (buildCalls p c maxDepth weaponId part.id).findSome? (Call.failure? faults)
      with _ | e
    · obtain ⟨call, hcall, cause, hcause⟩ := hsome
      have hnone := List.findSome?_eq_none_iff.mp hfirst call hcall
      rw [Call.failure?, hcause] at hnone
      exact absurd hnone nofun
    · obtain ⟨before, call, after, cause, hcalls, hbefore, hcause, rfl⟩ := Call.exists_first hfirst
      rw [Reading.Through, hfirst] at hthrough
      exact ⟨before, call, after, cause, _, hcalls, hbefore, hcause,
        EvalError.tells_ofRead call.about cause, hthrough⟩

/-- The offers for "d" are missing, and what fits the rail of "a" cannot be read. -/
def loopFaults : List Fault :=
  [⟨.offers, "d", .notFound "Offers" "d"⟩, ⟨.allowed, "a_rail", .lockFailed "busy"⟩]

/-- Nobody sells the attachment "e", so its properties are not needed.  What fits the rail of "a" is
asked for before the offers for "d", and the failure is laid to "a". -/
theorem faults_exact_sample : ∃ tree,
    (build loopStore.provider 4 "w" .recoil loopConstraints).run = Except.ok tree ∧
      (build (loopStore.provider.withFaults [⟨.properties, "e", .lockFailed "busy"⟩]) 4 "w" .recoil
        loopConstraints).run = Except.ok tree ∧
      (build (loopStore.provider.withFaults loopFaults) 4 "w" .recoil loopConstraints).run =
        Except.error (.construction "a" (.lockFailed "busy")) := by
  have hroot : ((expansion loopStore.provider 4 "w" loopConstraints).run.toOption.map Part.id) =
      some "w" := by cbv
  have hfree : ((buildCalls loopStore.provider loopConstraints 4 "w" "w").all fun call =>
      (Fault.find? [⟨.properties, "e", .lockFailed "busy"⟩] call.question call.id).isNone) =
      true := by cbv
  have hfirst : ((buildCalls loopStore.provider loopConstraints 4 "w" "w").find? fun call =>
      (Fault.find? loopFaults call.question call.id).isSome) =
      some ⟨.allowed, "a_rail", "a"⟩ := by cbv
  rcases hexp : (expansion loopStore.provider 4 "w" loopConstraints).run with e | part
  · rw [hexp] at hroot
    cases hroot
  have hbuild := build_of_expansion .recoil hexp
  rw [hexp] at hroot
  have hid : part.id = "w" := Option.some.inj hroot
  refine ⟨_, hbuild, ?_, ?_⟩
  · obtain ⟨part', hpart', -, hpass, -⟩ :=
      faults_exact hbuild [⟨.properties, "e", .lockFailed "busy"⟩]
    obtain rfl : part = part' := Except.ok.inj (hexp.symm.trans hpart')
    rw [hid] at hpass
    refine hpass fun call hcall cause hcause => ?_
    have hnone := List.all_eq_true.mp hfree call hcall
    rw [show Fault.find? _ call.question call.id = some cause from hcause] at hnone
    exact Bool.noConfusion hnone
  · have hbusy : Call.Fails loopFaults ⟨.allowed, "a_rail", "a"⟩ (.lockFailed "busy") := by decide
    obtain ⟨part', hpart', -, -, hfail⟩ := faults_exact hbuild loopFaults
    obtain rfl : part = part' := Except.ok.inj (hexp.symm.trans hpart')
    rw [hid] at hfail
    obtain ⟨before, call, after, cause, e, hcalls, hbefore, hcause, htells, hrun⟩ :=
      hfail ⟨_, List.mem_of_find?_eq_some hfirst, _, hbusy⟩
    -- The first call that fails is found by going through the list.
    have hfound : ((buildCalls loopStore.provider loopConstraints 4 "w" "w").find? fun call =>
        (Fault.find? loopFaults call.question call.id).isSome) = some call := by
      refine List.find?_eq_some_iff_append.mpr ⟨?_, before, after, hcalls, fun earlier hmem => ?_⟩
      · exact Option.isSome_iff_exists.mpr ⟨cause, hcause⟩
      · rw [Bool.not_eq_true', Option.isSome_eq_false_iff, Option.isNone_iff_eq_none]
        exact Option.eq_none_iff_forall_ne_some.mpr (hbefore earlier hmem)
    obtain rfl := Option.some.inj (hfound.symm.trans hfirst)
    obtain rfl := Option.some.inj (hbusy.symm.trans hcause)
    rw [hrun, htells.1]

end CandidateTree

end Gunsmith
