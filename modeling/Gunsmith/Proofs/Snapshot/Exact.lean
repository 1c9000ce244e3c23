/-
  Every remembered answer is a snapshot of the catalogue.

  Around a source things happen in any order (`Snapshot.Event`): transactions write to the
  store, questions are asked, and at times the source forgets everything.  A question is then
  answered by what the catalogue said when the question first succeeded since the last
  forgetting; before that, and always for weapons, it is answered by what the catalogue says
  now.  `ExactSnapshots` collects this, and `exactSnapshots` proves it for every history.

  Each event is over before the next one begins: a question that is not answered from memory is one
  step, from looking up what is remembered to remembering the answer.  Nothing is locked while the
  catalogue is read, so calls of several threads may also overlap; such histories are not meant.

  Two lemmas about a single event carry the argument.  An answer that is remembered is only
  lost by forgetting (`View.recalled_step`), and it comes to be remembered only by a question
  that succeeds (`View.recalled_of_step`).

  A tree is built by asking questions, so building one is a run of such events.  While the
  catalogue stays as it was at the last forgetting, whatever is remembered is what it says,
  and the tree is the one that is built on the catalogue itself (`follows_build`).
-/
import Gunsmith.Proofs.Snapshot
import Gunsmith.Proofs.Tree.Expanded
import Gunsmith.Store.Schema

namespace Gunsmith

/-! ### Questions and answers -/

/-- What a question is answered with. -/
abbrev Question.Answer : Question → Type
  | .weapon => Weapon
  | .slots => List SlotRecord
  | .allowed => List AllowedItem
  | .properties => Properties
  | .offers => List Offer

/-- Puts a question about an id to a source. -/
def Provider.ask {m : Type → Type} (p : Provider m) :
    (question : Question) → String → m (Except StoreError question.Answer)
  | .weapon => p.weapon
  | .slots => p.slots
  | .allowed => p.allowed
  | .properties => p.properties
  | .offers => p.offers

/-- The tables of the catalogue. -/
def Table.catalogue : List Table := [.items, .slots, .allowed, .conflicts, .offers]

/-- The two stores have the same catalogue; their other tables may differ. -/
def Store.SameCatalogue (s s' : Store) : Prop := ∀ t ∈ Table.catalogue, s.rows? t = s'.rows? t

/-- What a catalogue answers depends on its own tables only. -/
theorem Store.SameCatalogue.provider_eq {s s' : Store} (h : s.SameCatalogue s') :
    s.provider = s'.provider := by
  have hrows : ∀ t ∈ Table.catalogue, s.rows t = s'.rows t := fun t ht => by
    rw [Store.rows, Store.rows, h t ht]
  have hitems := hrows .items (by decide)
  have hslots := hrows .slots (by decide)
  have hallowed := hrows .allowed (by decide)
  have hconflicts := hrows .conflicts (by decide)
  have hoffers := hrows .offers (by decide)
  have hprovider : ∀ s : Store, s.provider =
      ⟨s.weapon, s.slotsOf, s.allowedIn, s.propertiesOf, s.offersFor⟩ := fun _ => rfl
  rw [hprovider, hprovider, Provider.mk.injEq]
  refine ⟨?_, ?_, ?_, ?_, ?_⟩ <;> funext id
  · simp only [Store.weapon, hitems]
  · simp only [Store.slotsOf, hslots]
  · simp only [Store.allowedIn, hallowed, hitems]
  · simp only [Store.propertiesOf, hitems, hconflicts]
  · simp only [Store.offersFor, hoffers]

namespace Snapshot

/-! ### What is remembered -/

/-- The answer that is remembered to a question about an id; weapons are not remembered. -/
def recalled (memory : Snapshot) : (question : Question) → String → Option question.Answer
  | .weapon, _ => none
  | .slots, id => memory.slots[id]?
  | .allowed, id => memory.allowed[id]?
  | .properties, id => memory.properties[id]?
  | .offers, id => memory.offers[id]?

/-- Remembers an answer, unless it is a weapon. -/
def remember (memory : Snapshot) : (question : Question) → String → question.Answer → Snapshot
  | .weapon, _, _ => memory
  | .slots, id, found => { memory with slots := memory.slots.insert id found }
  | .allowed, id, found => { memory with allowed := memory.allowed.insert id found }
  | .properties, id, found => { memory with properties := memory.properties.insert id found }
  | .offers, id, found => { memory with offers := memory.offers.insert id found }

section

variable {memory : Snapshot} {s s' : Store} {question question' : Question} {id id' : String}

@[simp]
theorem recalled_empty (question : Question) (id : String) :
    empty.recalled question id = none := by
  cases question <;> simp [recalled, empty]

theorem recalled_remember_self (h : question ≠ .weapon) (found : question.Answer) :
    (memory.remember question id found).recalled question id = some found := by
  cases question with
  | weapon => exact absurd rfl h
  | _ => simp [recalled, remember]

/-- To remember one answer leaves the others alone. -/
theorem recalled_remember_of_ne (h : question' ≠ question ∨ id' ≠ id) (found : question.Answer) :
    (memory.remember question id found).recalled question' id' =
      memory.recalled question' id' := by
  cases question <;> cases question' <;>
    simp_all [recalled, remember, Std.TreeMap.getElem?_insert, Ne.symm]

/-- **One question**: what is remembered is the answer; what is not is read from the catalogue, and
remembered unless it is a failure. -/
theorem ask_eq (s : Store) (memory : Snapshot) (question : Question) (id : String) :
    (provider s).ask question id memory =
      match memory.recalled question id with
      | some found => (.ok found, memory)
      | none =>
        match s.provider.ask question id with
        | .ok found => (.ok found, memory.remember question id found)
        | .error e => (.error e, memory) := by
  cases question with
  | weapon =>
    have hask : (provider s).ask .weapon id memory = (s.weapon id, memory) := rfl
    have hdirect : s.provider.ask .weapon id = s.weapon id := rfl
    rw [hask, hdirect]
    cases s.weapon id <;> rfl
  | _ =>
    simp only [Provider.ask, provider, remembering, recalled, remember, Store.provider]
    split
    · simp only [*]
    · simp only [*]
      split <;> simp only [*]

theorem ask_of_recalled {found : question.Answer} (h : memory.recalled question id = some found) :
    (provider s).ask question id memory = (.ok found, memory) := by
  rw [ask_eq, h]

theorem ask_of_not_recalled (h : memory.recalled question id = none) :
    ((provider s).ask question id memory).1 = s.provider.ask question id := by
  rw [ask_eq, h]
  cases s.provider.ask question id <;> rfl

end

/-! ### Histories -/

/-- A store, and what a source remembers of it. -/
structure View where
  store : Store
  memory : Snapshot

/-- Something that happens around a source. -/
inductive Event where
  /-- A transaction on the store, of whatever kind; it may fail. -/
  | write (action : Transaction Unit)
  /-- A question about an id, up to where its answer is remembered. -/
  | ask (question : Question) (id : String)
  /-- The source forgets everything. -/
  | forget

namespace View

/-- What the source answers. -/
def answer (view : View) (question : Question) (id : String) : Except StoreError question.Answer :=
  ((provider view.store).ask question id view.memory).1

/-- What the catalogue itself says. -/
def direct (view : View) (question : Question) (id : String) : Except StoreError question.Answer :=
  view.store.provider.ask question id

/-- The tree that is built through the source, and what is remembered afterwards. -/
def build (view : View) (maxDepth : Nat) (weaponId : String) (stat : Stat) (c : Constraints) :
    Except EvalError CandidateTree × Snapshot :=
  (CandidateTree.build (provider view.store) maxDepth weaponId stat c).run view.memory

/-- What an event leads to. -/
def step (view : View) : Event → View
  | .write action => { view with store := (action.call view.store).2 }
  | .ask question id =>
    { view with memory := ((provider view.store).ask question id view.memory).2 }
  | .forget => { view with memory := empty }

/-- What some events lead to, one after the other. -/
def run (view : View) (events : List Event) : View := events.foldl step view

variable {view : View} {event : Event} {events : List Event} {question : Question} {id : String}

theorem run_append (view : View) (events further : List Event) :
    view.run (events ++ further) = (view.run events).run further :=
  List.foldl_append

theorem run_concat (view : View) (events : List Event) (event : Event) :
    view.run (events ++ [event]) = (view.run events).step event :=
  view.run_append events [event]

/-- What is remembered to a question that is asked is remembered afterwards, or the answer is. -/
theorem recalled_ask {question' : Question} {id' : String} {found : question.Answer}
    (h : (view.step (.ask question' id')).memory.recalled question id = some found) :
    view.memory.recalled question id = some found ∨
      question = question' ∧ id = id' ∧ ∃ found', view.answer question' id' = .ok found' := by
  have hstep : (view.step (.ask question' id')).memory =
      ((provider view.store).ask question' id' view.memory).2 := rfl
  rw [hstep, ask_eq] at h
  rw [answer, ask_eq]
  cases hrecalled : view.memory.recalled question' id' with
  | some found' =>
    simp only [hrecalled] at h
    exact Or.inl h
  | none =>
    simp only [hrecalled] at h
    cases hdirect : view.store.provider.ask question' id' with
    | error e =>
      simp only [hdirect] at h
      exact Or.inl h
    | ok found' =>
      simp only [hdirect] at h
      by_cases hsame : question = question' ∧ id = id'
      · exact Or.inr ⟨hsame.1, hsame.2, found', rfl⟩
      · rw [recalled_remember_of_ne (not_and_or.mp hsame)] at h
        exact Or.inl h

/-- **Only forgetting loses an answer.** -/
theorem recalled_step {found : question.Answer}
    (h : view.memory.recalled question id = some found) (hevent : event ≠ .forget) :
    (view.step event).memory.recalled question id = some found := by
  cases event with
  | write action => exact h
  | forget => exact absurd rfl hevent
  | ask question' id' =>
    have hstep : (view.step (.ask question' id')).memory =
        ((provider view.store).ask question' id' view.memory).2 := rfl
    rw [hstep, ask_eq]
    cases hrecalled : view.memory.recalled question' id' with
    | some found' => exact h
    | none =>
      cases view.store.provider.ask question' id' with
      | error e => exact h
      | ok found' =>
        -- The question that was asked is another one, for its answer was not remembered.
        have hne : question ≠ question' ∨ id ≠ id' := by
          by_contra hsame
          simp only [not_or, not_not] at hsame
          obtain ⟨rfl, rfl⟩ := hsame
          simp [h] at hrecalled
        simp only [recalled_remember_of_ne hne, h]

/-- **Only a question that succeeds brings an answer.** -/
theorem recalled_of_step {found : question.Answer}
    (h : (view.step event).memory.recalled question id = some found) :
    event ≠ .forget ∧ (view.memory.recalled question id = some found ∨
      event = .ask question id ∧ ∃ found', view.answer question id = .ok found') := by
  cases event with
  | write action => exact ⟨nofun, Or.inl h⟩
  | forget => simp [step] at h
  | ask question' id' =>
    refine ⟨nofun, (recalled_ask h).imp_right ?_⟩
    rintro ⟨rfl, rfl, hanswer⟩
    exact ⟨rfl, hanswer⟩

theorem recalled_run {found : question.Answer}
    (h : view.memory.recalled question id = some found) (hevents : Event.forget ∉ events) :
    (view.run events).memory.recalled question id = some found := by
  induction events generalizing view with
  | nil => exact h
  | cons event events ih =>
    have hevent : event ≠ .forget := fun heq => hevents (heq ▸ List.mem_cons_self)
    have hrest : Event.forget ∉ events := fun hmem => hevents (List.mem_cons_of_mem _ hmem)
    exact ih (recalled_step h hevent) hrest

end View

/-- What some events around a fresh source lead to. -/
def after (start : Store) (events : List Event) : View := View.run ⟨start, empty⟩ events

/-- The question has succeeded since everything was last forgotten. -/
def Succeeded (start : Store) (events : List Event) (question : Question) (id : String) : Prop :=
  ∃ before later found, events = before ++ .ask question id :: later ∧ Event.forget ∉ later ∧
    (after start before).answer question id = .ok found

/-- Nothing has happened since the source was created or everything was forgotten. -/
def Renewed (events : List Event) : Prop := events = [] ∨ ∃ before, events = before ++ [.forget]

section

variable {start : Store} {events before later : List Event} {question : Question} {id : String}

theorem after_append (start : Store) (events further : List Event) :
    after start (events ++ further) = (after start events).run further :=
  View.run_append _ events further

theorem after_concat (start : Store) (events : List Event) (event : Event) :
    after start (events ++ [event]) = (after start events).step event :=
  View.run_concat _ events event

theorem Succeeded.concat (h : Succeeded start events question id) {event : Event}
    (hevent : event ≠ .forget) : Succeeded start (events ++ [event]) question id := by
  obtain ⟨before, later, found, rfl, hlater, hfound⟩ := h
  refine ⟨before, later ++ [event], found, by simp, ?_, hfound⟩
  simp [hlater, hevent.symm]

/-- What is remembered is the answer to a question that has succeeded. -/
theorem succeeded_of_recalled {found : question.Answer}
    (h : (after start events).memory.recalled question id = some found) :
    Succeeded start events question id := by
  -- On the events, the last one first: it brought the answer, or the answer was there before.
  induction events using List.reverseRecOn with
  | nil => simp [after, View.run] at h
  | append_singleton events event ih =>
    rw [after_concat] at h
    obtain ⟨hevent, hbefore | ⟨rfl, found', hanswer⟩⟩ := View.recalled_of_step h
    · exact (ih hbefore).concat hevent
    · exact ⟨events, [], found', rfl, by simp, hanswer⟩

theorem answer_of_not_succeeded (h : ¬ Succeeded start events question id) :
    (after start events).answer question id = (after start events).direct question id := by
  cases hrecalled : (after start events).memory.recalled question id with
  | some found => exact absurd (succeeded_of_recalled hrecalled) h
  | none => exact ask_of_not_recalled hrecalled

/-- **The first success is remembered**, until everything is forgotten. -/
theorem answer_again (hquestion : question ≠ .weapon)
    (hfirst : ¬ Succeeded start before question id) {found : question.Answer}
    (hfound : (after start before).answer question id = .ok found)
    (hlater : Event.forget ∉ later) :
    (after start (before ++ .ask question id :: later)).answer question id = .ok found := by
  have hdirect := (answer_of_not_succeeded hfirst).symm.trans hfound
  have hnone : (after start before).memory.recalled question id = none := by
    cases hrecalled : (after start before).memory.recalled question id with
    | some found' => exact absurd (succeeded_of_recalled hrecalled) hfirst
    | none => rfl
  have hstep : ((after start before).step (.ask question id)).memory.recalled question id =
      some found := by
    show (((provider _).ask question id _).2).recalled question id = some found
    rw [ask_eq, hnone]
    simp only [show (after start before).store.provider.ask question id = .ok found from hdirect]
    exact recalled_remember_self hquestion found
  have hrun := View.recalled_run hstep hlater
  have hafter : after start (before ++ .ask question id :: later) =
      ((after start before).step (.ask question id)).run later := after_append ..
  rw [hafter, View.answer, ask_of_recalled hrun]

/-- A failure leaves everything as it was. -/
theorem step_ask_of_error {view : View} {e : StoreError}
    (h : view.answer question id = .error e) : view.step (.ask question id) = view := by
  rw [View.answer, ask_eq] at h
  rw [View.step, ask_eq]
  cases hrecalled : view.memory.recalled question id with
  | some found => simp [hrecalled] at h
  | none =>
    cases hdirect : view.store.provider.ask question id with
    | ok found => simp [hrecalled, hdirect] at h
    | error e' => rfl

end

/-! ### Building trees -/

/-- What is remembered after some questions. -/
def asking (s : Store) (memory : Snapshot) (questions : List (Question × String)) : Snapshot :=
  questions.foldl (fun memory (question, id) => ((provider s).ask question id memory).2) memory

theorem asking_append (s : Store) (memory : Snapshot)
    (questions further : List (Question × String)) :
    asking s memory (questions ++ further) = asking s (asking s memory questions) further :=
  List.foldl_append

/-- All that is remembered is what the catalogue says. -/
def Truthful (s : Store) (memory : Snapshot) : Prop :=
  ∀ question id found, memory.recalled question id = some found →
    s.provider.ask question id = .ok found

theorem truthful_empty (s : Store) : Truthful s empty := by
  intro question id found h
  simp at h

section

variable {s : Store} {memory : Snapshot}

/-- From a truthful memory a question is answered as by the catalogue. -/
theorem Truthful.answer (h : Truthful s memory) (question : Question) (id : String) :
    ((provider s).ask question id memory).1 = s.provider.ask question id := by
  cases hrecalled : memory.recalled question id with
  | some found => rw [ask_of_recalled hrecalled, h question id found hrecalled]
  | none => exact ask_of_not_recalled hrecalled

theorem Truthful.ask (h : Truthful s memory) (question : Question) (id : String) :
    Truthful s ((provider s).ask question id memory).2 := by
  rw [ask_eq]
  cases memory.recalled question id with
  | some found => exact h
  | none =>
    cases hdirect : s.provider.ask question id with
    | error e => exact h
    | ok found =>
      intro question' id' found' hfound'
      by_cases hsame : question' = question ∧ id' = id
      · obtain ⟨rfl, rfl⟩ := hsame
        by_cases hweapon : question' = .weapon
        · subst hweapon
          simp [recalled] at hfound'
        · simp only [recalled_remember_self hweapon, Option.some.injEq] at hfound'
          rw [hdirect, hfound']
      · simp only [recalled_remember_of_ne (not_and_or.mp hsame)] at hfound'
        exact h question' id' found' hfound'

theorem Truthful.asking (h : Truthful s memory) (questions : List (Question × String)) :
    Truthful s (asking s memory questions) := by
  induction questions generalizing memory with
  | nil => exact h
  | cons question questions ih => exact ih (h.ask question.1 question.2)

end

/-- Steps through the source run like the same steps on the catalogue itself: they ask some
questions, and if the memory is truthful, they end the same way. -/
structure Follows {α : Type} (s : Store) (x : Reading (StateM Snapshot) α) (y : Reading Id α) :
    Prop where
  asks : ∀ memory, ∃ questions, (x.run memory).2 = asking s memory questions
  agrees : ∀ memory, Truthful s memory → (x.run memory).1 = y.run

namespace Follows

variable {α β : Type} {s : Store}

theorem pure (a : α) : Follows s (pure a) (pure a) where
  asks _ := ⟨[], rfl⟩
  agrees _ _ := rfl

theorem throw (e : EvalError) : Follows (α := α) s (throw e) (throw e) where
  asks _ := ⟨[], rfl⟩
  agrees _ _ := rfl

theorem bind {x : Reading (StateM Snapshot) α} {y : Reading Id α}
    {f : α → Reading (StateM Snapshot) β} {g : α → Reading Id β} (h : Follows s x y)
    (hf : ∀ a, Follows s (f a) (g a)) : Follows s (x >>= f) (y >>= g) where
  asks memory := by
    obtain ⟨questions, hquestions⟩ := h.asks memory
    rw [run_bind_state]
    rcases hx : x.run memory with ⟨e | a, memory'⟩
    · rw [hx] at hquestions
      exact ⟨questions, hquestions⟩
    · obtain ⟨further, hfurther⟩ := (hf a).asks memory'
      rw [hx] at hquestions
      refine ⟨questions ++ further, ?_⟩
      rw [asking_append, ← hquestions]
      exact hfurther
  agrees memory hmemory := by
    have hanswer := h.agrees memory hmemory
    obtain ⟨questions, hquestions⟩ := h.asks memory
    rw [run_bind_state, ExceptT.run_bind, ← hanswer]
    rcases hx : x.run memory with ⟨e | a, memory'⟩
    · rfl
    · rw [hx] at hquestions
      have hmemory' : Truthful s memory' := by
        rw [show memory' = asking s memory questions from hquestions]
        exact hmemory.asking questions
      exact (hf a).agrees memory' hmemory'

theorem ask (itemId : String) (question : Question) (id : String) :
    Follows s (Reading.ask itemId ((provider s).ask question id))
      (Reading.ask itemId (s.provider.ask question id)) where
  asks _ := ⟨[(question, id)], rfl⟩
  agrees memory hmemory := by
    show ((provider s).ask question id memory).1.mapError _ = _
    rw [hmemory.answer]
    rfl

theorem mapM {f : α → Reading (StateM Snapshot) β} {g : α → Reading Id β}
    (h : ∀ a, Follows s (f a) (g a)) (xs : List α) : Follows s (xs.mapM f) (xs.mapM g) := by
  induction xs with
  | nil => simpa using pure []
  | cons x xs ih =>
    rw [List.mapM_cons, List.mapM_cons]
    exact (h x).bind fun b => ih.bind fun bs => pure (b :: bs)

end Follows

section Trees

variable (s : Store) (c : Constraints)

theorem follows_consider (chain : List Placement) (slotId : String) (item : AllowedItem) :
    Follows s (consider (provider s) c chain slotId item)
      (consider s.provider c chain slotId item) := by
  unfold consider
  split
  · exact Follows.pure _
  refine (Follows.ask item.id .offers item.id).bind fun offers => ?_
  split
  · exact Follows.pure _
  split
  · exact Follows.pure _
  · exact (Follows.ask item.id .properties item.id).bind fun found => Follows.pure _

theorem follows_expand (depth : Nat) : ∀ (chain : List Placement) (address : List Nat)
    (label : Label), Follows s (expand (provider s) c depth chain address label)
      (expand s.provider c depth chain address label) := by
  -- On the depth: what is mounted in a slot is expanded with one step less.
  induction depth with
  | zero =>
    intro chain address label
    rw [expand, expand]
    exact (Follows.ask label.id .slots label.id).bind fun rows => Follows.pure _
  | succ depth ih =>
    intro chain address label
    rw [expand, expand]
    refine (Follows.ask label.id .slots label.id).bind fun rows => ?_
    refine (Follows.mapM (fun r => ?_) _).bind fun slots => Follows.pure _
    refine (Follows.ask label.id .allowed r.1.id).bind fun allowed => ?_
    refine (Follows.mapM (fun a => ?_) _).bind fun verdicts => Follows.pure _
    refine (follows_consider s c chain r.1.id a.1).bind fun verdict => ?_
    cases verdict with
    | unavailable => exact Follows.pure _
    | cyclic => exact Follows.pure _
    | mounted label' => exact (ih _ _ label').bind fun part => Follows.pure _

/-- **Building a tree is asking questions**, and from a truthful memory it leads to the tree of the
catalogue. -/
theorem follows_build (maxDepth : Nat) (weaponId : String) (stat : Stat) :
    Follows s (CandidateTree.build (provider s) maxDepth weaponId stat c)
      (CandidateTree.build s.provider maxDepth weaponId stat c) := by
  unfold CandidateTree.build CandidateTree.expansion
  refine Follows.bind ?_ fun part => Follows.pure _
  split
  · exact Follows.throw _
  · exact (Follows.ask weaponId .weapon weaponId).bind fun w => follows_expand s c maxDepth [] [] _

end Trees

/-! ### Exact snapshots -/

/-- The questions as events. -/
def Event.asks (questions : List (Question × String)) : List Event :=
  questions.map fun (question, id) => .ask question id

theorem run_asks (view : View) (questions : List (Question × String)) :
    view.run (Event.asks questions) =
      { view with memory := asking view.store view.memory questions } := by
  induction questions generalizing view with
  | nil => rfl
  | cons question questions ih => exact ih (view.step (.ask question.1 question.2))

/-- The catalogue has stayed as it was before the later ones of some events. -/
def Steady (start : Store) (before later : List Event) : Prop :=
  ∀ early late, later = early ++ late →
    (after start (before ++ early)).store.SameCatalogue (after start before).store

section

variable {start : Store} {before later : List Event}

theorem memory_of_renewed (h : Renewed before) : (after start before).memory = empty := by
  rcases h with rfl | ⟨events, rfl⟩
  · rfl
  · rw [after_concat]
    rfl

/-- While the catalogue is the same, the source remembers only what it says. -/
theorem truthful_after (hbefore : Renewed before) (hsteady : Steady start before later) :
    Truthful (after start (before ++ later)).store (after start (before ++ later)).memory := by
  induction later using List.reverseRecOn with
  | nil =>
    rw [List.append_nil, memory_of_renewed hbefore]
    exact truthful_empty _
  | append_singleton later event ih =>
    have hlater : Steady start before later := fun early late heq =>
      hsteady early (late ++ [event]) (by rw [heq, List.append_assoc])
    have hview := ih hlater
    have hlast := (hsteady (later ++ [event]) [] (by simp)).provider_eq
    have hprior := (hlater later [] (by simp)).provider_eq
    rw [← List.append_assoc, after_concat] at hlast ⊢
    cases event with
    | write action =>
      intro question id found hfound
      rw [hlast, ← hprior]
      exact hview question id found hfound
    | ask question id => exact hview.ask question id
    | forget => exact truthful_empty _

end

/-- A source over a store gives exact snapshots of the catalogue, whatever happens around it. -/
structure ExactSnapshots (start : Store) : Prop where
  /-- Weapons are always read from the catalogue as it is. -/
  weapon : ∀ events id,
    (after start events).answer .weapon id = (after start events).direct .weapon id
  /-- A question that has not succeeded since the last forgetting is answered by the catalogue as it
  is. -/
  first : ∀ events question id, ¬ Succeeded start events question id →
    (after start events).answer question id = (after start events).direct question id
  /-- From its first success on a question is answered by what the catalogue said then, until
  everything is forgotten. -/
  again : ∀ before later question id found, question ≠ .weapon →
    ¬ Succeeded start before question id →
    (after start before).answer question id = .ok found → Event.forget ∉ later →
    (after start (before ++ .ask question id :: later)).answer question id =
      (after start before).direct question id
  /-- A failure is not remembered: it leaves no trace. -/
  failed : ∀ events question id e, (after start events).answer question id = .error e →
    after start (events ++ [.ask question id]) = after start events
  /-- To build a tree is to ask some questions. -/
  builds : ∀ events maxDepth weaponId stat c, ∃ questions,
    ((after start events).build maxDepth weaponId stat c).2 =
      (after start (events ++ Event.asks questions)).memory
  /-- While the catalogue has stayed as it was at the last forgetting, every question is answered by
  the catalogue as it is. -/
  steady : ∀ before later, Renewed before → Steady start before later → ∀ question id,
    (after start (before ++ later)).answer question id =
      (after start (before ++ later)).direct question id
  /-- So every tree is the one that is built on the catalogue itself. -/
  trees : ∀ before later, Renewed before → Steady start before later →
    ∀ maxDepth weaponId stat c,
      ((after start (before ++ later)).build maxDepth weaponId stat c).1 =
        (CandidateTree.build (after start (before ++ later)).store.provider maxDepth weaponId stat
          c).run

/-- **Remembered answers are exact snapshots**, for every history of writes, questions and
forgetting around a fresh source. -/
theorem exactSnapshots (start : Store) : ExactSnapshots start where
  weapon _ _ := ask_of_not_recalled rfl
  first _ _ _ := answer_of_not_succeeded
  again _ _ _ _ _ hquestion hfirst hfound hlater := by
    have hdirect := (answer_of_not_succeeded hfirst).symm.trans hfound
    rw [answer_again hquestion hfirst hfound hlater, hdirect]
  failed events question id _ h := by
    rw [after_concat]
    exact step_ask_of_error h
  builds events maxDepth weaponId stat c := by
    have hfollows := follows_build (after start events).store c maxDepth weaponId stat
    obtain ⟨questions, hquestions⟩ := hfollows.asks (after start events).memory
    refine ⟨questions, ?_⟩
    rw [after_append, run_asks]
    exact hquestions
  steady _ _ hbefore hsteady question id := (truthful_after hbefore hsteady).answer question id
  trees _ _ hbefore hsteady maxDepth weaponId stat c :=
    (follows_build _ c maxDepth weaponId stat).agrees _ (truthful_after hbefore hsteady)

/-- A slot that is added later is only seen once everything is forgotten. -/
example :
    let rail := Event.write (Transaction.upsertSlot "rifle" "rail" "Rail" 0)
    let butt := Event.write (Transaction.upsertSlot "rifle" "butt" "Butt" 1)
    let events := [.write (.upsertItem ⟨"rifle", "Rifle", .weapon, ⟨100, 40⟩⟩), rail,
      .ask .slots "rifle", butt]
    (after .fresh events).answer .slots "rifle" = .ok [⟨"rail", "Rail"⟩] ∧
      (after .fresh (events ++ [.forget])).answer .slots "rifle" =
        .ok [⟨"rail", "Rail"⟩, ⟨"butt", "Butt"⟩] := by
  constructor <;> cbv

end Snapshot

end Gunsmith
