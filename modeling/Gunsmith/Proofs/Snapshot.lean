/-
  Answers from memory.

  While nothing is written to the catalogue, a source that remembers its answers gives the same ones
  as the catalogue itself: what it remembers are answers of the catalogue (`Snapshot.Faithful`), and
  whatever it is asked, it comes to remember nothing else (`Snapshot.faithful_asked`).
-/
import Gunsmith.Snapshot
import Mathlib.Data.List.Induction
import Mathlib.Tactic.SplitIfs

namespace Gunsmith

namespace Snapshot

variable {α : Type} {s : Store} {memory : Snapshot}

/-- What is remembered are answers of the catalogue. -/
structure Faithful (s : Store) (memory : Snapshot) : Prop where
  slots : ∀ id found, memory.slots[id]? = some found → s.slotsOf id = .ok found
  allowed : ∀ id found, memory.allowed[id]? = some found → s.allowedIn id = .ok found
  properties : ∀ id found, memory.properties[id]? = some found → s.propertiesOf id = .ok found
  offers : ∀ id found, memory.offers[id]? = some found → s.offersFor id = .ok found

/-- What is remembered after some questions, asked one after the other. -/
def asked (s : Store) (questions : List (Question × String)) : Snapshot :=
  questions.foldl
    (fun memory (question, id) =>
      match question with
      | .weapon => ((provider s).weapon id memory).2
      | .slots => ((provider s).slots id memory).2
      | .allowed => ((provider s).allowed id memory).2
      | .properties => ((provider s).properties id memory).2
      | .offers => ((provider s).offers id memory).2)
    empty

section

variable {answers : Snapshot → Std.TreeMap String α}
  {keep : Snapshot → Std.TreeMap String α → Snapshot} {ask : String → Except StoreError α}
  {id : String}

/-- An answer from a faithful memory is the answer of the catalogue. -/
theorem remembering_answer
    (h : ∀ id found, (answers memory)[id]? = some found → ask id = .ok found) :
    (remembering answers keep ask id memory).1 = ask id := by
  rw [remembering]
  cases hfound : (answers memory)[id]? with
  | some found => exact (h id found hfound).symm
  | none => cases ask id <;> rfl

/-- Asking keeps what is remembered, or adds the answer of the catalogue. -/
theorem remembering_memory {P : Snapshot → Prop} (h : P memory)
    (hkeep : ∀ found, ask id = .ok found → P (keep memory ((answers memory).insert id found))) :
    P (remembering answers keep ask id memory).2 := by
  rw [remembering]
  cases (answers memory)[id]? with
  | some found => exact h
  | none =>
    cases hask : ask id with
    | error e => exact h
    | ok found => exact hkeep found hask

theorem answers_insert {answers : Std.TreeMap String α} {found : α}
    (h : ∀ id found, answers[id]? = some found → ask id = .ok found) (hask : ask id = .ok found)
    (id' : String) (found' : α) (hfound' : (answers.insert id found)[id']? = some found') :
    ask id' = .ok found' := by
  rw [Std.TreeMap.getElem?_insert] at hfound'
  split_ifs at hfound' with hid
  · rw [← Std.LawfulEqCmp.eq_of_compare hid, hask, Option.some.inj hfound']
  · exact h id' found' hfound'

end

theorem faithful_empty (s : Store) : Faithful s empty := by
  constructor <;> intro id found hfound <;> simp [empty] at hfound

/-- **While nothing is written**, a fresh source remembers only answers of the catalogue. -/
theorem faithful_asked (s : Store) (questions : List (Question × String)) :
    Faithful s (asked s questions) := by
  induction questions using List.reverseRecOn with
  | nil => exact faithful_empty s
  | append_singleton questions question ih =>
    obtain ⟨question, id⟩ := question
    rw [asked, List.foldl_append]
    cases question with
    | weapon => exact ih
    | slots =>
      refine remembering_memory ih fun found hask => ?_
      exact ⟨answers_insert ih.slots hask, ih.allowed, ih.properties, ih.offers⟩
    | allowed =>
      refine remembering_memory ih fun found hask => ?_
      exact ⟨ih.slots, answers_insert ih.allowed hask, ih.properties, ih.offers⟩
    | properties =>
      refine remembering_memory ih fun found hask => ?_
      exact ⟨ih.slots, ih.allowed, answers_insert ih.properties hask, ih.offers⟩
    | offers =>
      refine remembering_memory ih fun found hask => ?_
      exact ⟨ih.slots, ih.allowed, ih.properties, answers_insert ih.offers hask⟩

end Snapshot

end Gunsmith
