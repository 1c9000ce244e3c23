/-
  Growth that follows a reading step by step.

  A tree grows while the catalogue is read, and the same catalogue is read by the expansion that
  says what the tree is to be.  `Growing.Mirrors` puts the two side by side: steps of growth
  mirror a reading if they fail where it fails, and succeed where it succeeds with results that
  belong together.  In either case there is an outcome, and the edits made are permitted where
  they are made (`Growth.Later`), so the tables stay in order (`Growth.Later.wellFormed`).

  There is one rule for each way to put steps together: `Mirrors.bind` for one step after
  another, `Mirrors.forM` for a loop, `Succeeds.bind` and `Succeeds.mapM` for steps that have no
  counterpart in the reading.
-/
import Gunsmith.Tree.Growth
import Gunsmith.Proofs.Arena.WellFormed

namespace Gunsmith

/-! ### Later stages -/

namespace Growth

variable {g g' g'' : Growth} {e : Edit}

/-- The stage `g'` comes after `g`: permitted edits have been made, and the tables have followed. -/
def Later (g g' : Growth) : Prop :=
  ∃ edits, g'.edits = g.edits ++ edits ∧ g.arena.Permits edits ∧
    g'.arena = g.arena.applyAll edits

theorem Later.refl (g : Growth) : g.Later g :=
  ⟨[], (List.append_nil _).symm, trivial, rfl⟩

theorem Later.trans (h : g.Later g') (h' : g'.Later g'') : g.Later g'' := by
  obtain ⟨edits, hedits, hpermits, harena⟩ := h
  obtain ⟨edits', hedits', hpermits', harena'⟩ := h'
  refine ⟨edits ++ edits', ?_, ?_, ?_⟩
  · rw [hedits', hedits, List.append_assoc]
  · rw [Arena.permits_append, ← harena]
    exact ⟨hpermits, hpermits'⟩
  · rw [Arena.applyAll_append, ← harena, harena']

theorem later_edited (he : e.Permitted g.arena) : g.Later (g.edited e) :=
  ⟨[e], rfl, ⟨he, trivial⟩, rfl⟩

theorem later_registered (g : Growth) (id : String) (conflicts : List String) :
    g.Later (g.registered id conflicts) :=
  ⟨[], (List.append_nil _).symm, trivial, rfl⟩

/-- What is in order stays so. -/
theorem Later.wellFormed (h : g.Later g') (hg : g.arena.WellFormed) : g'.arena.WellFormed := by
  obtain ⟨edits, -, hpermits, harena⟩ := h
  rw [harena]
  exact hg.applyAll hpermits

end Growth

/-! ### What edits leave as it is -/

/-- An entry that is changed stays where it is, with the field that the change leaves alone. -/
theorem exists_getElem?_modify {α β : Type} {xs : List α} {x : α} {i : Nat} {f : α → α}
    (field : α → β) (hf : ∀ x, field (f x) = field x) (h : xs[i]? = some x) (j : Nat) :
    ∃ x', (xs.modify j f)[i]? = some x' ∧ field x' = field x := by
  have hfield : (xs.modify j f)[i]?.map field = xs[i]?.map field :=
    Arena.map_getElem?_modify hf j i
  rw [h, Option.map_some] at hfield
  exact Option.map_eq_some_iff.mp hfield

namespace Arena

variable {a : Arena} {i s : Nat}

/-- An item in the table keeps its id and its place. -/
theorem getElem?_items_apply {node : ItemNode} (h : a.items[i]? = some node) (e : Edit) :
    ∃ node', (a.apply e).items[i]? = some node' ∧ node'.id = node.id ∧
      node'.parentSlot = node.parentSlot := by
  have hmodify : ∀ (j : Nat) (f : ItemNode → ItemNode),
      (∀ n, ((f n).id, (f n).parentSlot) = (n.id, n.parentSlot)) →
      ∃ node', (a.items.modify j f)[i]? = some node' ∧ node'.id = node.id ∧
        node'.parentSlot = node.parentSlot := by
    intro j f hf
    simpa only [Prod.mk.injEq] using
      exists_getElem?_modify (fun n : ItemNode => (n.id, n.parentSlot)) hf h j
  cases e with
  | item new =>
    refine ⟨node, ?_, rfl, rfl⟩
    have hlt := (List.getElem?_eq_some_iff.mp h).1
    show (a.items ++ [new])[i]? = _
    rw [List.getElem?_append_left hlt, h]
  | slot slot => exact hmodify _ _ fun _ => rfl
  | rateItem j bounds conflictFree => exact hmodify _ _ fun _ => rfl
  | mount => exact ⟨node, h, rfl, rfl⟩
  | keepOut => exact ⟨node, h, rfl, rfl⟩
  | cut => exact ⟨node, h, rfl, rfl⟩
  | rateSlot => exact ⟨node, h, rfl, rfl⟩
  | select => exact ⟨node, h, rfl, rfl⟩

theorem getElem?_items_applyAll {node : ItemNode} (h : a.items[i]? = some node)
    (edits : List Edit) : ∃ node', (a.applyAll edits).items[i]? = some node' ∧
      node'.id = node.id ∧ node'.parentSlot = node.parentSlot := by
  induction edits generalizing a node with
  | nil => exact ⟨node, h, rfl, rfl⟩
  | cons e edits ih =>
    obtain ⟨node', hnode', hid, hparent⟩ := getElem?_items_apply h e
    obtain ⟨node'', hnode'', hid', hparent'⟩ := ih hnode'
    exact ⟨node'', hnode'', hid'.trans hid, hparent'.trans hparent⟩

/-- A slot in the table keeps its id and its place. -/
theorem getElem?_slots_apply {slot : SlotNode} (h : a.slots[s]? = some slot) (e : Edit) :
    ∃ slot', (a.apply e).slots[s]? = some slot' ∧ slot'.id = slot.id ∧
      slot'.parentItem = slot.parentItem := by
  have hmodify : ∀ (t : Nat) (f : SlotNode → SlotNode),
      (∀ n, ((f n).id, (f n).parentItem) = (n.id, n.parentItem)) →
      ∃ slot', (a.slots.modify t f)[s]? = some slot' ∧ slot'.id = slot.id ∧
        slot'.parentItem = slot.parentItem := by
    intro t f hf
    simpa only [Prod.mk.injEq] using
      exists_getElem?_modify (fun n : SlotNode => (n.id, n.parentItem)) hf h t
  cases e with
  | slot new =>
    refine ⟨slot, ?_, rfl, rfl⟩
    have hlt := (List.getElem?_eq_some_iff.mp h).1
    show (a.slots ++ [new])[s]? = _
    rw [List.getElem?_append_left hlt, h]
  | mount => exact hmodify _ _ fun _ => rfl
  | keepOut => exact hmodify _ _ fun _ => rfl
  | rateSlot => exact hmodify _ _ fun _ => rfl
  | select => exact hmodify _ _ fun _ => rfl
  | item => exact ⟨slot, h, rfl, rfl⟩
  | cut => exact ⟨slot, h, rfl, rfl⟩
  | rateItem => exact ⟨slot, h, rfl, rfl⟩

theorem getElem?_slots_applyAll {slot : SlotNode} (h : a.slots[s]? = some slot)
    (edits : List Edit) : ∃ slot', (a.applyAll edits).slots[s]? = some slot' ∧
      slot'.id = slot.id ∧ slot'.parentItem = slot.parentItem := by
  induction edits generalizing a slot with
  | nil => exact ⟨slot, h, rfl, rfl⟩
  | cons e edits ih =>
    obtain ⟨slot', hslot', hid, hparent⟩ := getElem?_slots_apply h e
    obtain ⟨slot'', hslot'', hid', hparent'⟩ := ih hslot'
    exact ⟨slot'', hslot'', hid'.trans hid, hparent'.trans hparent⟩

end Arena

namespace Growth.Later

variable {g g' : Growth} {i s : Nat} (h : g.Later g')

include h

theorem item {node : ItemNode} (hnode : g.arena.items[i]? = some node) :
    ∃ node', g'.arena.items[i]? = some node' ∧ node'.id = node.id ∧
      node'.parentSlot = node.parentSlot := by
  obtain ⟨edits, -, -, harena⟩ := h
  rw [harena]
  exact Arena.getElem?_items_applyAll hnode edits

theorem slot {slot : SlotNode} (hslot : g.arena.slots[s]? = some slot) :
    ∃ slot', g'.arena.slots[s]? = some slot' ∧ slot'.id = slot.id ∧
      slot'.parentItem = slot.parentItem := by
  obtain ⟨edits, -, -, harena⟩ := h
  rw [harena]
  exact Arena.getElem?_slots_applyAll hslot edits

/-- The table of slots does not shrink. -/
theorem length_slots : g.arena.slots.length ≤ g'.arena.slots.length := by
  by_contra hlt
  have hlast : g'.arena.slots.length < g.arena.slots.length := Nat.lt_of_not_le hlt
  obtain ⟨slot, hslot, -⟩ := h.slot (List.getElem?_eq_getElem hlast)
  rw [List.getElem?_eq_none (Nat.le_refl _)] at hslot
  cases hslot

end Growth.Later

/-! ### Side by side -/

namespace Growing

variable {α β γ δ : Type} {x : Reading Id α} {y : Growing β} {g : Growth}

/-- The outcome of some steps, which keep to permitted edits. -/
def Yields (y : Growing β) (g : Growth) (post : Except EvalError β → Growth → Prop) : Prop :=
  ∃ outcome g', y.run.run g = some (outcome, g') ∧ g.Later g' ∧ post outcome g'

/-- The steps succeed. -/
def Succeeds (y : Growing β) (g : Growth) (post : β → Growth → Prop) : Prop :=
  Yields y g fun outcome g' => ∃ b, outcome = .ok b ∧ post b g'

/-- The steps fail where the reading fails, in the same way, and succeed where it succeeds. -/
def Mirrors (x : Reading Id α) (y : Growing β) (g : Growth) (post : α → β → Growth → Prop) : Prop :=
  match x.run with
  | .ok a => Succeeds y g (post a)
  | .error e => Yields y g fun outcome _ => outcome = .error e

theorem run_run_bind (y : Growing β) (k : β → Growing γ) (g : Growth) :
    (y >>= k).run.run g = match y.run.run g with
      | some (.ok b, g') => (k b).run.run g'
      | some (.error e, g') => some (.error e, g')
      | none => none := by
  rw [ExceptT.run_bind]
  show (y.run.run g).bind _ = _
  rcases y.run.run g with _ | ⟨_ | _, _⟩ <;> rfl

theorem Yields.bind {k : β → Growing γ} {post : Except EvalError γ → Growth → Prop}
    (h : Yields y g fun outcome g' => match outcome with
      | .ok b => Yields (k b) g' post
      | .error e => post (.error e) g') : Yields (y >>= k) g post := by
  obtain ⟨outcome, g', hrun, hlater, hpost⟩ := h
  unfold Yields
  rw [run_run_bind, hrun]
  rcases outcome with e | b
  · exact ⟨.error e, g', rfl, hlater, hpost⟩
  · obtain ⟨outcome', g'', hrun', hlater', hpost'⟩ := hpost
    exact ⟨outcome', g'', hrun', hlater.trans hlater', hpost'⟩

section Succeeds

variable {k : β → Growing γ} {post : β → Growth → Prop} {post' : γ → Growth → Prop}

theorem Succeeds.pure {b : β} (h : post b g) : Succeeds (pure b) g post :=
  ⟨.ok b, g, rfl, Growth.Later.refl g, b, rfl, h⟩

theorem Succeeds.imp {post' : β → Growth → Prop} (h : Succeeds y g post)
    (himp : ∀ b g', g.Later g' → post b g' → post' b g') : Succeeds y g post' := by
  obtain ⟨outcome, g', hrun, hlater, b, hok, hpost⟩ := h
  exact ⟨outcome, g', hrun, hlater, b, hok, himp b g' hlater hpost⟩

/-- Steps that go before others. -/
theorem Succeeds.then_yields {post' : Except EvalError γ → Growth → Prop} (hy : Succeeds y g post)
    (hk : ∀ b g', g.Later g' → post b g' → Yields (k b) g' post') : Yields (y >>= k) g post' := by
  apply Yields.bind
  obtain ⟨_, g', hrun, hlater, b, rfl, hpost⟩ := hy
  exact ⟨.ok b, g', hrun, hlater, hk b g' hlater hpost⟩

theorem Succeeds.bind (hy : Succeeds y g post)
    (hk : ∀ b g', g.Later g' → post b g' → Succeeds (k b) g' post') :
    Succeeds (y >>= k) g post' :=
  hy.then_yields hk

theorem run_run_answer (question : Arena → Option β) (g : Growth) :
    (answer question).run.run g = (question g.arena).map fun b => (.ok b, g) := by
  cases h : question g.arena <;>
    simp [answer, ExceptT.run, ExceptT.lift, ExceptT.mk, StateT.lift, StateT.run, h, get, getThe,
      MonadStateOf.get, StateT.get, Functor.map, StateT.map, bind, StateT.bind, pure]

theorem succeeds_answer (question : Arena → Option β) {b : β} (h : question g.arena = some b) :
    Succeeds (answer question) g fun b' g' => b' = b ∧ g' = g := by
  have hrun : (answer question).run.run g = some (.ok b, g) := by
    rw [run_run_answer, h, Option.map_some]
  exact ⟨.ok b, g, hrun, Growth.Later.refl g, b, rfl, rfl, rfl⟩

theorem succeeds_get : Succeeds (getThe Growth) g fun b g' => b = g ∧ g' = g :=
  ⟨.ok g, g, rfl, Growth.Later.refl g, g, rfl, rfl, rfl⟩

theorem succeeds_edit {e : Edit} (he : e.Permitted g.arena) :
    Succeeds (edit e) g fun _ g' => g' = g.edited e :=
  ⟨.ok (), g.edited e, rfl, Growth.later_edited he, (), rfl, rfl⟩

theorem succeeds_register (id : String) (conflicts : List String) :
    Succeeds (register id conflicts) g fun _ g' => g' = g.registered id conflicts :=
  ⟨.ok (), _, rfl, Growth.later_registered g id conflicts, (), rfl, rfl⟩

/-- A loop whose results are known for what stands beside the things that it runs over.  Each step
moves the tables on in some way, which keeps what was known before and what was reached. -/
theorem Succeeds.mapM {f : α → Growing β} {F : δ → β} {K : Growth → Growth → Prop}
    {S T : Growth → δ → α → Prop} (hrefl : ∀ g, K g g)
    (htrans : ∀ {g g' g''}, K g g' → K g' g'' → K g g'')
    (hS : ∀ {g g'}, K g g' → ∀ z x, S g z x → S g' z x)
    (hT : ∀ {g g'}, K g g' → ∀ z x, T g z x → T g' z x) {zs : List δ} {xs : List α}
    (hstep : ∀ z ∈ zs, ∀ x g, S g z x → Succeeds (f x) g fun b g' => b = F z ∧ K g g' ∧ T g' z x)
    (h : List.Forall₂ (S g) zs xs) :
    Succeeds (xs.mapM f) g fun bs g' => bs = zs.map F ∧ K g g' ∧ List.Forall₂ (T g') zs xs := by
  -- `S` is what a step needs, `T` what it reaches; both must survive the steps of the others.
  induction zs generalizing xs g with
  | nil =>
    rw [List.forall₂_nil_left_iff.mp h]
    exact Succeeds.pure ⟨rfl, hrefl g, List.Forall₂.nil⟩
  | cons z zs ih =>
    obtain ⟨x, xs, hzx, hrest, rfl⟩ := List.forall₂_cons_left_iff.mp h
    rw [List.mapM_cons]
    apply (hstep z List.mem_cons_self x g hzx).bind
    rintro _ g' - ⟨rfl, hK, hTzx⟩
    apply (ih (fun z' hz' => hstep z' (List.mem_cons_of_mem _ hz')) (hrest.imp (hS hK))).bind
    rintro _ g'' - ⟨rfl, hK', hTrest⟩
    apply Succeeds.pure
    exact ⟨rfl, htrans hK hK', List.Forall₂.cons (hT hK' z x hTzx) hTrest⟩

end Succeeds

section Mirrors

variable {f : α → Reading Id δ} {k : β → Growing γ} {post : α → β → Growth → Prop}
  {post' : δ → γ → Growth → Prop}

theorem mirrors_of_ok {a : α} (hx : x.run = .ok a) :
    Mirrors x y g post ↔ Succeeds y g (post a) := by
  unfold Mirrors
  rw [hx]

theorem mirrors_of_error {e : EvalError} (hx : x.run = .error e) :
    Mirrors x y g post ↔ Yields y g fun outcome _ => outcome = .error e := by
  unfold Mirrors
  rw [hx]

theorem mirrors_pure {a : α} : Mirrors (pure a) y g post ↔ Succeeds y g (post a) :=
  mirrors_of_ok rfl

theorem mirrors_throw (e : EvalError) (post : α → β → Growth → Prop) (g : Growth) :
    Mirrors (throw e) (throw e) g post :=
  (mirrors_of_error rfl).mpr ⟨.error e, g, rfl, Growth.Later.refl g, rfl⟩

/-- What is read is read on both sides. -/
theorem mirrors_read (x : Reading Id α) (g : Growth) :
    Mirrors x (read x) g fun a b g' => b = a ∧ g' = g := by
  cases hx : x.run with
  | error e =>
    rw [mirrors_of_error hx, read, hx]
    exact ⟨.error e, g, rfl, Growth.Later.refl g, rfl⟩
  | ok a =>
    rw [mirrors_of_ok hx, read, hx]
    exact Succeeds.pure ⟨rfl, rfl⟩

theorem Mirrors.imp {post' : α → β → Growth → Prop} (h : Mirrors x y g post)
    (himp : ∀ a b g', g.Later g' → post a b g' → post' a b g') : Mirrors x y g post' := by
  cases hx : x.run with
  | error e =>
    rw [mirrors_of_error hx] at h ⊢
    exact h
  | ok a =>
    rw [mirrors_of_ok hx] at h ⊢
    exact h.imp (himp a)

/-- Steps without a counterpart in the reading. -/
theorem Succeeds.then_mirrors {x : Reading Id δ} {post : β → Growth → Prop} (hy : Succeeds y g post)
    (hk : ∀ b g', g.Later g' → post b g' → Mirrors x (k b) g' post') :
    Mirrors x (y >>= k) g post' := by
  cases hx : x.run with
  | error e =>
    rw [mirrors_of_error hx]
    exact hy.then_yields fun b g' hlater hb => (mirrors_of_error hx).mp (hk b g' hlater hb)
  | ok d =>
    rw [mirrors_of_ok hx]
    exact hy.bind fun b g' hlater hb => (mirrors_of_ok hx).mp (hk b g' hlater hb)

/-- One step after another. -/
theorem Mirrors.bind (hxy : Mirrors x y g post)
    (hfk : ∀ a b g', g.Later g' → post a b g' → Mirrors (f a) (k b) g' post') :
    Mirrors (x >>= f) (y >>= k) g post' := by
  cases hx : x.run with
  | error e =>
    have hxf : (x >>= f).run = .error e := by
      rw [ExceptT.run_bind, hx]
      rfl
    rw [mirrors_of_error hx] at hxy
    rw [mirrors_of_error hxf]
    obtain ⟨_, g', hrun, hlater, rfl⟩ := hxy
    exact Yields.bind ⟨.error e, g', hrun, hlater, rfl⟩
  | ok a =>
    have hxf : (x >>= f).run = (f a).run := by
      rw [ExceptT.run_bind, hx]
      rfl
    rw [mirrors_of_ok hx] at hxy
    unfold Mirrors
    rw [hxf]
    exact hxy.then_mirrors fun b g' hlater hb => hfk a b g' hlater hb

/-- What is read may be put into another form. -/
theorem Mirrors.then_pure {h : α → δ} {post' : δ → β → Growth → Prop} (hxy : Mirrors x y g post)
    (himp : ∀ a b g', g.Later g' → post a b g' → post' (h a) b g') :
    Mirrors (x >>= fun a => pure (h a)) y g post' := by
  rw [← bind_pure y]
  apply hxy.bind
  intro a b g' hlater hpost
  exact mirrors_pure.mpr (Succeeds.pure (himp a b g' hlater hpost))

/-- A loop: what it keeps is a property of the results so far. -/
theorem Mirrors.forM {f : α × Nat → Reading Id δ} {k : α → Growing PUnit}
    (inv : List δ → Growth → Prop) {xs : List α}
    (hstep : ∀ x n ds g, inv ds g → Mirrors (f (x, n)) (k x) g fun d _ g' => inv (ds ++ [d]) g')
    {ds : List δ} (hinv : inv ds g) (n : Nat) :
    Mirrors ((xs.zipIdx n).mapM f) (xs.forM k) g fun ds' _ g' => inv (ds ++ ds') g' := by
  induction xs generalizing n ds g with
  | nil =>
    rw [List.zipIdx_nil, List.mapM_nil, mirrors_pure, List.append_nil]
    exact Succeeds.pure hinv
  | cons x xs ih =>
    rw [List.zipIdx_cons, List.mapM_cons]
    show Mirrors _ (k x >>= fun _ => xs.forM k) g _
    apply (hstep x n ds g hinv).bind
    intro d _ g' _ hinv'
    apply (ih hinv' (n + 1)).then_pure
    intro ds' _ g'' _ hinv''
    rw [List.append_cons]
    exact hinv''

end Mirrors

end Growing

end Gunsmith
