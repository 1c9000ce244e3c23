/-
  What an evaluation answers and what it leaves alone.

  A source of data is asked for the weapon first, and the tree is built on the weapon that
  it returns.  So if the source returns the weapon that it was asked for
  (`Service.NamesWeapons`), what an evaluation returns is a build of that weapon for the
  stat.  Of the store, an evaluation changes the isolated solutions at most.
-/
import Gunsmith.Proofs.Search.Untouched
import Gunsmith.Proofs.Tree.Trimming
import Gunsmith.Service

namespace Gunsmith

/-! ### Reading with a memory -/

namespace Reading

variable {σ α β : Type}

/-- A reading that succeeds in two steps. -/
theorem run_bind_ok {x : Reading (StateM σ) α} {f : α → Reading (StateM σ) β} {s s' : σ} {b : β}
    (h : (x >>= f).run s = (.ok b, s')) :
    ∃ a s₁, x.run s = (.ok a, s₁) ∧ (f a).run s₁ = (.ok b, s') := by
  rw [run_bind_state] at h
  rcases hx : x.run s with ⟨e | a, s₁⟩
  · rw [hx] at h
    cases (Prod.mk.inj h).1
  · rw [hx] at h
    exact ⟨a, s₁, rfl, h⟩

/-- A question that was answered. -/
theorem run_ask_ok {itemId : String} {question : StateM σ (Except StoreError α)} {s s' : σ} {a : α}
    (h : (Reading.ask itemId question).run s = (.ok a, s')) : question s = (.ok a, s') := by
  have hrun : (Reading.ask itemId question).run s =
      ((question s).1.mapError (EvalError.ofRead itemId), (question s).2) := rfl
  rw [hrun] at h
  rcases hq : question s with ⟨e | b, s₁⟩
  · rw [hq] at h
    cases (Prod.mk.inj h).1
  · rw [hq] at h
    obtain ⟨hanswer, rfl⟩ := Prod.mk.inj h
    obtain rfl := Except.ok.inj hanswer
    rfl

end Reading

namespace CandidateTree

variable {σ : Type} {p : Provider (StateM σ)} {c : Constraints} {s s' : σ}

/-- An item is expanded to a part with its id. -/
theorem id_of_expand {depth : Nat} {chain : List Placement} {address : List Nat} {label : Label}
    {part : Part} (h : (expand p c depth chain address label).run s = (.ok part, s')) :
    part.id = label.id := by
  cases depth with
  | zero =>
    rw [expand] at h
    obtain ⟨rows, s₁, -, h⟩ := Reading.run_bind_ok h
    obtain rfl := Except.ok.inj (Prod.mk.inj h).1
    rfl
  | succ depth =>
    rw [expand] at h
    obtain ⟨rows, s₁, -, h⟩ := Reading.run_bind_ok h
    obtain ⟨slots, s₂, -, h⟩ := Reading.run_bind_ok h
    obtain rfl := Except.ok.inj (Prod.mk.inj h).1
    rfl

/-- The tree of a request is built on the weapon that the source returns. -/
theorem id_of_build {depth : Nat} {itemId : String} {stat : Stat} {tree : CandidateTree}
    (h : (build p depth itemId stat c).run s = (.ok tree, s')) :
    ∃ w s₁, p.weapon itemId s = (.ok w, s₁) ∧ tree.root.id = w.id := by
  obtain ⟨part, s₁, hpart, h⟩ := Reading.run_bind_ok h
  obtain rfl := Except.ok.inj (Prod.mk.inj h).1
  unfold expansion at hpart
  cases hvalid : c.validate with
  | error detail =>
    rw [hvalid] at hpart
    cases (Prod.mk.inj hpart).1
  | ok u =>
    rw [hvalid] at hpart
    obtain ⟨w, s₂, hw, hexpand⟩ := Reading.run_bind_ok hpart
    refine ⟨w, s₂, Reading.run_ask_ok hw, ?_⟩
    rw [← show (rootLabel w).id = w.id from rfl, ← id_of_expand hexpand]
    exact (trimming_finished part.declarations.symmetric stat).id part

end CandidateTree

namespace Service

/-- The source of the service returns the weapon that it is asked for. -/
def NamesWeapons (svc : Service) : Prop :=
  ∀ store id memory w memory', (svc.source store).weapon id memory = (.ok w, memory') → w.id = id

variable {svc : Service} {itemId : String} {stat : Stat} {c : Constraints}

/-- An evaluation, whatever its source, changes the isolated solutions at most, and what it returns is
a build on the tree of the request. -/
theorem evaluate_searches (desk : Desk) :
    desk.store.SameButIsolated ((svc.evaluate itemId stat c).run desk).2.store ∧
      ∀ outcome, ((svc.evaluate itemId stat c).run desk).1 = .ok outcome →
        ∃ tree memory best,
          (CandidateTree.build (svc.source desk.store) svc.depth itemId stat c).run desk.memory =
            (.ok tree, memory) ∧ outcome.result = tree.resultOf stat best := by
  have hsame : desk.store.SameButIsolated desk.store := fun _ _ => rfl
  unfold evaluate
  rw [ExceptT.run_mk]
  dsimp only
  rcases hbuild : (CandidateTree.build (svc.source desk.store) svc.depth itemId stat c).run
    desk.memory with ⟨e | tree, memory⟩
  · exact ⟨hsame, fun outcome h => absurd h nofun⟩
  · have hkeeps : ∀ a, (if desk.cache.version = svc.version then some Cache.access else none) =
        some a → a.Keeps fun s : Store × Cache => desk.store.SameButIsolated s.1 := by
      intro a ha
      split_ifs at ha
      obtain rfl := Option.some.inj ha
      exact Cache.keeps_access desk.store
    obtain ⟨hstore, hresult⟩ := @CandidateTree.search_keeps _ _ tree stat ∅ _ hkeeps
      (desk.store, desk.cache) hsame
    refine ⟨hstore, fun outcome houtcome => ?_⟩
    obtain ⟨best, hbest⟩ := hresult outcome houtcome
    exact ⟨tree, memory, best, rfl, hbest⟩

/-- **An evaluation** changes the isolated solutions at most, and what it returns is a build of the
item for the stat. -/
theorem evaluate_keeps (hnames : svc.NamesWeapons) (desk : Desk) :
    desk.store.SameButIsolated ((svc.evaluate itemId stat c).run desk).2.store ∧
      ∀ outcome, ((svc.evaluate itemId stat c).run desk).1 = .ok outcome →
        outcome.result.itemId = itemId ∧ outcome.result.stat = stat := by
  obtain ⟨hsame, hresult⟩ := @evaluate_searches svc itemId stat c desk
  refine ⟨hsame, fun outcome houtcome => ?_⟩
  obtain ⟨tree, memory, best, hbuild, hbest⟩ := hresult outcome houtcome
  obtain ⟨w, memory₁, hw, hroot⟩ := CandidateTree.id_of_build hbuild
  rw [hbest]
  exact ⟨hroot.trans (hnames _ _ _ _ _ hw), rfl⟩

end Service

end Gunsmith
