/-
  Finite sets of names, kept as strictly ascending lists.

  The order is that of the texts, code point by code point.  Because the list is
  strictly ascending, a set has exactly one representation: two sets with the same
  members are equal (`NameSet.ext_mem`), so a set can stand in a key, be written
  down and be compared without any choice of order.
-/

namespace Gunsmith

/-- A finite set of names: its members in strictly ascending order. -/
structure NameSet where
  names : List String
  ascending : names.Pairwise (· < ·)
deriving DecidableEq

namespace NameSet

/-! ### Texts are linearly ordered -/

/-- Of two texts neither of which comes before the other, each is the other. -/
theorem eq_of_not_lt {a b : String} (h₁ : ¬ a < b) (h₂ : ¬ b < a) : a = b :=
  String.le_antisymm (String.not_lt.mp h₂) (String.not_lt.mp h₁)

/-! ### Insertion into an ascending list -/

/-- Puts a name into its place in an ascending list, once. -/
def insertName (n : String) : List String → List String
  | [] => [n]
  | m :: ms => if n < m then n :: m :: ms else if n = m then m :: ms else m :: insertName n ms

theorem mem_insertName {n x : String} {ms : List String} :
    x ∈ insertName n ms ↔ x = n ∨ x ∈ ms := by
  induction ms with
  | nil => simp [insertName]
  | cons m ms ih =>
    simp only [insertName]
    split
    · simp
    · split
      · next h => subst h; simp
      · simp only [List.mem_cons, ih]
        exact or_left_comm

theorem pairwise_insertName {n : String} {ms : List String} (h : ms.Pairwise (· < ·)) :
    (insertName n ms).Pairwise (· < ·) := by
  induction ms with
  | nil => simp [insertName]
  | cons m ms ih =>
    obtain ⟨hm, hms⟩ := List.pairwise_cons.mp h
    simp only [insertName]
    split
    · next hlt =>
      refine List.pairwise_cons.mpr ⟨fun x hx => ?_, h⟩
      rcases List.mem_cons.mp hx with rfl | hx
      · exact hlt
      · exact String.lt_trans hlt (hm x hx)
    · split
      · exact h
      · next hnlt hne =>
        refine List.pairwise_cons.mpr ⟨fun x hx => ?_, ih hms⟩
        rcases mem_insertName.mp hx with rfl | hx
        · exact Decidable.byContradiction fun hmn => hne (eq_of_not_lt hnlt hmn)
        · exact hm x hx

/-! ### The operations -/

/-- The set without members. -/
def empty : NameSet := ⟨[], .nil⟩

instance : EmptyCollection NameSet := ⟨empty⟩

instance : Inhabited NameSet := ⟨empty⟩

instance : Membership String NameSet := ⟨fun s n => n ∈ s.names⟩

instance (n : String) (s : NameSet) : Decidable (n ∈ s) :=
  inferInstanceAs (Decidable (n ∈ s.names))

/-- The set with one more member. -/
def insert (n : String) (s : NameSet) : NameSet :=
  ⟨insertName n s.names, pairwise_insertName s.ascending⟩

/-- The set with all the given names added. -/
def insertAll (s : NameSet) (ns : List String) : NameSet :=
  ns.foldl (fun t n => t.insert n) s

/-- The set of the given names, in whatever order and however often they are given. -/
def ofList (ns : List String) : NameSet :=
  insertAll empty ns

/-- The members, in ascending order. -/
def toList (s : NameSet) : List String := s.names

/-- Holds when there is no member. -/
def isEmpty (s : NameSet) : Bool := s.names.isEmpty

/-- The number of members. -/
def size (s : NameSet) : Nat := s.names.length

/-! ### Membership decides everything -/

@[simp]
theorem mem_mk {n : String} {ns : List String} {h : ns.Pairwise (· < ·)} :
    n ∈ (⟨ns, h⟩ : NameSet) ↔ n ∈ ns := Iff.rfl

@[simp]
theorem mem_toList {n : String} {s : NameSet} : n ∈ s.toList ↔ n ∈ s := Iff.rfl

@[simp]
theorem not_mem_empty (n : String) : ¬ n ∈ (∅ : NameSet) := List.not_mem_nil

@[simp]
theorem mem_insert {n x : String} {s : NameSet} : x ∈ s.insert n ↔ x = n ∨ x ∈ s :=
  mem_insertName

@[simp]
theorem mem_insertAll {x : String} {s : NameSet} {ns : List String} :
    x ∈ s.insertAll ns ↔ x ∈ s ∨ x ∈ ns := by
  induction ns generalizing s with
  | nil => simp [insertAll]
  | cons n ns ih =>
    have : s.insertAll (n :: ns) = (s.insert n).insertAll ns := rfl
    rw [this, ih, mem_insert, List.mem_cons]
    constructor
    · rintro ((h | h) | h)
      · exact .inr (.inl h)
      · exact .inl h
      · exact .inr (.inr h)
    · rintro (h | h | h)
      · exact .inl (.inr h)
      · exact .inl (.inl h)
      · exact .inr h

@[simp]
theorem mem_ofList {x : String} {ns : List String} : x ∈ ofList ns ↔ x ∈ ns := by
  have h : x ∈ ofList ns ↔ x ∈ (∅ : NameSet) ∨ x ∈ ns := mem_insertAll
  simpa using h

/-- A strictly ascending list is determined by its members. -/
theorem eq_of_pairwise_of_mem {as bs : List String} (ha : as.Pairwise (· < ·))
    (hb : bs.Pairwise (· < ·)) (h : ∀ x, x ∈ as ↔ x ∈ bs) : as = bs := by
  induction as generalizing bs with
  | nil =>
    cases bs with
    | nil => rfl
    | cons b bs => exact absurd ((h b).mpr List.mem_cons_self) List.not_mem_nil
  | cons a as ih =>
    obtain ⟨haa, has⟩ := List.pairwise_cons.mp ha
    cases bs with
    | nil => exact absurd ((h a).mp List.mem_cons_self) List.not_mem_nil
    | cons b bs =>
      obtain ⟨hbb, hbs⟩ := List.pairwise_cons.mp hb
      have hab : a = b := by
        rcases List.mem_cons.mp ((h a).mp List.mem_cons_self) with h₁ | h₁
        · exact h₁
        · rcases List.mem_cons.mp ((h b).mpr List.mem_cons_self) with h₂ | h₂
          · exact h₂.symm
          · exact absurd (hbb a h₁) (String.lt_asymm (haa b h₂))
      subst hab
      congr 1
      refine ih has hbs fun x => ⟨fun hx => ?_, fun hx => ?_⟩
      · rcases List.mem_cons.mp ((h x).mp (List.mem_cons_of_mem a hx)) with rfl | hx'
        · exact absurd (haa x hx) (String.lt_irrefl x)
        · exact hx'
      · rcases List.mem_cons.mp ((h x).mpr (List.mem_cons_of_mem a hx)) with rfl | hx'
        · exact absurd (hbb x hx) (String.lt_irrefl x)
        · exact hx'

/-- Sets with the same members are equal. -/
theorem ext_mem {s t : NameSet} (h : ∀ x, x ∈ s ↔ x ∈ t) : s = t := by
  obtain ⟨ns, hs⟩ := s
  obtain ⟨ms, ht⟩ := t
  have : ns = ms := eq_of_pairwise_of_mem hs ht h
  subst this
  rfl

end NameSet

end Gunsmith
