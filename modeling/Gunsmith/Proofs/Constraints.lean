/-
  What the written form of constraints says about them.

  Stored builds and subtrees are found by `Constraints.key` alone, so two requests whose
  constraints are written alike share their results.  The written form puts a comma between
  the names of a set, and the words `|ignore=` and `|exclude=` in front of the two sets, and
  nothing is escaped:

  * `Constraints.key_eq_of_separable`: valid constraints none of whose names contains a comma,
    and none of whose ignored slots contains `|exclude=`, are equal if they are written alike;
  * `Constraints.not_key_injective`: with a comma in a name, they need not be.

  The proof reads the written form from the left.  The levels are written without `|`, so the
  first `|` ends them; the ignored slots are written without `|exclude=`, so its first
  occurrence ends them; the pieces of each list are written without a comma, and none of them
  is empty, so the commas give the pieces back.
-/
import Gunsmith.Constraints
import Mathlib.Data.List.Infix

namespace Gunsmith

/-! ### Cutting a text at a mark -/

namespace Text

/-- The mark that a character begins and in which it does not come again: the text in front of
its first occurrence is determined. -/
theorem eq_of_append_mark {c : Char} {mark a b x y : List Char} (hc : c ∉ mark)
    (ha : ¬ c :: mark <:+: a) (hb : ¬ c :: mark <:+: b)
    (h : a ++ c :: mark ++ x = b ++ c :: mark ++ y) : a = b ∧ x = y := by
  -- If one of the two goes on behind the other, what it goes on with begins with the mark, or
  -- breaks off inside of it where the character comes again.
  have key : ∀ {a b x y : List Char}, ¬ c :: mark <:+: b →
      a ++ (c :: mark ++ x) = b ++ (c :: mark ++ y) → ∀ d, b = a ++ d → d = [] := by
    intro a b x y hb h d hd
    subst hd
    rw [List.append_assoc, List.append_cancel_left_eq] at h
    cases d with
    | nil => rfl
    | cons e d =>
      simp only [List.cons_append, List.cons.injEq] at h
      obtain ⟨rfl, h⟩ := h
      rcases List.append_eq_append_iff.mp h with ⟨f, rfl, -⟩ | ⟨f, rfl, hf⟩
      · exact absurd ⟨a, f, by simp⟩ hb
      · cases f with
        | nil => exact absurd ⟨a, [], by simp⟩ hb
        | cons g f =>
          obtain ⟨rfl, -⟩ := List.cons.inj hf
          exact absurd (by simp) hc
  rw [List.append_assoc, List.append_assoc] at h
  have hab : a = b := by
    rcases List.append_eq_append_iff.mp h with ⟨d, hd, -⟩ | ⟨d, hd, -⟩
    · rw [hd, key hb h d hd, List.append_nil]
    · rw [hd, key ha h.symm d hd, List.append_nil]
  subst hab
  exact ⟨rfl, List.append_cancel_left (List.append_cancel_left h)⟩

/-- The text in front of the first occurrence of a character is determined. -/
theorem eq_of_append_cons {c : Char} {a b x y : List Char} (ha : c ∉ a) (hb : c ∉ b)
    (h : a ++ c :: x = b ++ c :: y) : a = b ∧ x = y := by
  refine @eq_of_append_mark c [] a b x y List.not_mem_nil ?_ ?_ (by simpa using h)
  · rwa [List.singleton_infix_iff]
  · rwa [List.singleton_infix_iff]

/-! ### Joined pieces -/

/-- What stands in a joined list, and does not contain the character that joins it, stands in
one of the pieces. -/
theorem infix_of_infix_intercalate {c : Char} {mark : List Char} (hc : c ∉ mark)
    (hne : mark ≠ []) {pieces : List (List Char)} (h : mark <:+: [c].intercalate pieces) :
    ∃ p ∈ pieces, mark <:+: p := by
  induction pieces with
  | nil => exact absurd (List.infix_nil.mp h) hne
  | cons p pieces ih =>
    cases pieces with
    | nil => exact ⟨p, List.mem_singleton_self p, by simpa using h⟩
    | cons q pieces =>
      rw [List.intercalate_cons_cons, List.append_assoc] at h
      rcases List.infix_append_iff.mp h with hp | hq | ⟨l₁, l₂, rfl, h₁, h₂⟩
      · exact ⟨p, List.mem_cons_self, hp⟩
      · rw [List.singleton_append, List.infix_cons_iff] at hq
        rcases hq with hq | hq
        · cases mark with
          | nil => exact absurd rfl hne
          | cons m mark =>
            obtain ⟨rfl, -⟩ := List.cons_prefix_cons.mp hq
            exact absurd List.mem_cons_self hc
        · obtain ⟨r, hr, hm⟩ := ih hq
          exact ⟨r, List.mem_cons_of_mem p hr, hm⟩
      · -- The part that sticks out of the first piece would begin with the character.
        cases l₂ with
        | nil => exact ⟨p, List.mem_cons_self, by simpa using h₁.isInfix⟩
        | cons m l₂ =>
          obtain ⟨rfl, -⟩ := List.cons_prefix_cons.mp h₂
          exact absurd (by simp) hc

/-- A piece that can be told apart when pieces are joined by the character. -/
def IsPiece (c : Char) (p : List Char) : Prop := c ∉ p ∧ p ≠ []

/-- Joined lists of pieces that are written alike are the same list. -/
theorem eq_of_intercalate_eq {c : Char} {ps qs : List (List Char)} (hp : ∀ p ∈ ps, IsPiece c p)
    (hq : ∀ q ∈ qs, IsPiece c q) (h : [c].intercalate ps = [c].intercalate qs) : ps = qs := by
  have nil : ∀ {rs : List (List Char)}, (∀ r ∈ rs, IsPiece c r) → [c].intercalate rs = [] →
      rs = [] := by
    intro rs hr hnil
    by_contra hne
    have hsplit := List.splitOn_intercalate c (fun r h => (hr r h).1) hne
    rw [hnil, List.splitOn_nil] at hsplit
    exact (hr [] (hsplit ▸ List.mem_singleton_self [])).2 rfl
  by_cases hps : ps = []
  · subst hps
    exact (nil hq h.symm).symm
  by_cases hqs : qs = []
  · subst hqs
    exact nil hp h
  calc ps = ([c].intercalate ps).splitOn c :=
        (List.splitOn_intercalate c (fun p h => (hp p h).1) hps).symm
    _ = ([c].intercalate qs).splitOn c := by rw [h]
    _ = qs := List.splitOn_intercalate c (fun q h => (hq q h).1) hqs

/-- A text that is not all blank is not empty. -/
theorem toList_ne_nil {s : String} (h : isAllBlank s = false) : s.toList ≠ [] := by
  intro hnil
  simp [isAllBlank, hnil] at h

end Text

/-! ### The written form of levels -/

namespace TraderLevels

/-- The text of one level. -/
def entry (l : Trader × Nat) : List Char := l.1.name.toList ++ '=' :: Nat.toDigits 10 l.2

theorem toList_key (levels : TraderLevels) :
    levels.key.toList = [','].intercalate (levels.toList.map entry) := by
  have hsep : ",".toList = [','] := rfl
  have hentry : ∀ l : Trader × Nat, s!"{l.1.name}={l.2}".toList = entry l := by
    intro l
    show (l.1.name ++ "=" ++ l.2.repr).toList = _
    rw [String.toList_append, String.toList_append, Nat.toList_repr, List.append_assoc]
    rfl
  rw [key, String.toList_intercalate, hsep, List.map_map]
  congr 2
  funext l
  exact hentry l

/-- A level is written with letters, the sign `=` and digits. -/
theorem not_mem_entry {c : Char} (l : Trader × Nat) (hname : ∀ t : Trader, c ∉ t.name.toList)
    (heq : c ≠ '=') (hdigit : c.isDigit = false) : c ∉ entry l := by
  intro h
  rcases List.mem_append.mp h with h | h
  · exact hname l.1 h
  · rcases List.mem_cons.mp h with h | h
    · exact heq h
    · have := Nat.isDigit_of_mem_toDigits (by decide) (by decide) h
      rw [hdigit] at this
      exact Bool.false_ne_true this

theorem comma_not_mem_entry (l : Trader × Nat) : ',' ∉ entry l :=
  not_mem_entry l (fun t => by cases t <;> decide) (by decide) (by decide)

theorem bar_not_mem_entry (l : Trader × Nat) : '|' ∉ entry l :=
  not_mem_entry l (fun t => by cases t <;> decide) (by decide) (by decide)

theorem entry_injective {l m : Trader × Nat} (h : entry l = entry m) : l = m := by
  have hname : ∀ t : Trader, '=' ∉ t.name.toList := fun t => by cases t <;> decide
  obtain ⟨h₁, h₂⟩ := Text.eq_of_append_cons (hname l.1) (hname m.1) h
  have ht : l.1 = m.1 := Trader.name_injective (String.toList_inj.mp h₁)
  have hn : l.2 = m.2 := by
    have := congrArg (Nat.ofDigitChars 10 · 0) h₂
    rwa [Nat.ofDigitChars_toDigits (by decide) (by decide),
      Nat.ofDigitChars_toDigits (by decide) (by decide)] at this
  exact Prod.ext ht hn

theorem bar_not_mem_key (levels : TraderLevels) : '|' ∉ levels.key.toList := by
  rw [toList_key, ← List.singleton_infix_iff]
  intro h
  obtain ⟨p, hp, hbar⟩ := Text.infix_of_infix_intercalate (by decide) (by decide) h
  obtain ⟨l, -, rfl⟩ := List.mem_map.mp hp
  exact bar_not_mem_entry l ((List.singleton_infix_iff _ _).mp hbar)

/-- Levels are determined by the list of them. -/
theorem toList_injective {l m : TraderLevels} (h : l.toList = m.toList) : l = m := by
  have hlevel : l.level = m.level := by
    funext t
    ext n
    rw [← mem_toList, ← mem_toList, h]
  exact congrArg TraderLevels.mk hlevel

/-- Levels that are written alike are the same. -/
theorem key_injective {l m : TraderLevels} (h : l.key = m.key) : l = m := by
  have hpiece : ∀ levels : TraderLevels, ∀ p ∈ levels.toList.map entry, Text.IsPiece ',' p := by
    intro levels p hp
    obtain ⟨x, -, rfl⟩ := List.mem_map.mp hp
    exact ⟨comma_not_mem_entry x, by simp [entry]⟩
  have hjoined : [','].intercalate (l.toList.map entry) = [','].intercalate (m.toList.map entry) := by
    rw [← toList_key, ← toList_key, h]
  have hentries := Text.eq_of_intercalate_eq (hpiece l) (hpiece m) hjoined
  exact toList_injective (List.map_injective_iff.mpr (fun _ _ => entry_injective) hentries)

end TraderLevels

/-! ### The written form of constraints -/

namespace Constraints

/-- The word between the ignored slots and the excluded items. -/
def excludeMark : List Char := "|exclude=".toList

/-- The names in the constraints do not contain what the written form puts between them. -/
structure Separable (c : Constraints) : Prop where
  ignored_comma : ∀ name ∈ c.ignoredSlots, ',' ∉ name.toList
  ignored_mark : ∀ name ∈ c.ignoredSlots, ¬ excludeMark <:+: name.toList
  excluded_comma : ∀ id ∈ c.excludedItems, ',' ∉ id.toList

instance (c : Constraints) : Decidable c.Separable :=
  decidable_of_iff ((∀ name ∈ c.ignoredSlots.names, ',' ∉ name.toList) ∧
      (∀ name ∈ c.ignoredSlots.names, ¬ excludeMark <:+: name.toList) ∧
      ∀ id ∈ c.excludedItems.names, ',' ∉ id.toList)
    ⟨fun ⟨h₁, h₂, h₃⟩ => ⟨h₁, h₂, h₃⟩, fun h => ⟨h.1, h.2, h.3⟩⟩

/-- The names of valid constraints are not all blank. -/
theorem not_isAllBlank_of_validate {c : Constraints} (h : c.validate = .ok ()) :
    (∀ name ∈ c.ignoredSlots, Text.isAllBlank name = false) ∧
      ∀ id ∈ c.excludedItems, Text.isAllBlank id = false := by
  unfold validate at h
  cases hlevels : c.levels.validate with
  | error e => simp [hlevels, bind, Except.bind] at h
  | ok u =>
    by_cases hignored : c.ignoredSlots.toList.any Text.isAllBlank = true
    · simp [hlevels, hignored, bind, Except.bind, throw, throwThe, MonadExceptOf.throw] at h
    by_cases hexcluded : c.excludedItems.toList.any Text.isAllBlank = true
    · simp [hlevels, hignored, hexcluded, bind, Except.bind, throw, throwThe,
        MonadExceptOf.throw] at h
    rw [Bool.not_eq_true, List.any_eq_false] at hignored hexcluded
    exact ⟨fun name hn => Bool.eq_false_iff.mpr (hignored name hn),
      fun id hi => Bool.eq_false_iff.mpr (hexcluded id hi)⟩

/-- Constraints are valid if the levels are and no name is all blank. -/
theorem validate_iff {c : Constraints} :
    c.validate = .ok () ↔ c.levels.validate = .ok () ∧
      (∀ name ∈ c.ignoredSlots, Text.isAllBlank name = false) ∧
        ∀ id ∈ c.excludedItems, Text.isAllBlank id = false := by
  constructor
  · intro h
    refine ⟨?_, not_isAllBlank_of_validate h⟩
    unfold validate at h
    cases hlevels : c.levels.validate with
    | error e => simp [hlevels, bind, Except.bind] at h
    | ok u => rfl
  · rintro ⟨hlevels, hignored, hexcluded⟩
    have hi : c.ignoredSlots.toList.any Text.isAllBlank = false := by simpa using hignored
    have he : c.excludedItems.toList.any Text.isAllBlank = false := by simpa using hexcluded
    unfold validate
    rw [hlevels, hi, he]
    rfl

/-- The written form, as characters. -/
theorem toList_key (c : Constraints) :
    c.key.toList = c.levels.key.toList ++ '|' :: ("ignore=".toList ++
      ([','].intercalate (c.ignoredSlots.toList.map String.toList) ++ excludeMark ++
        [','].intercalate (c.excludedItems.toList.map String.toList))) := by
  have hsep : ",".toList = [','] := rfl
  have hignore : "|ignore=".toList = '|' :: "ignore=".toList := by decide
  have hexclude : "|exclude=".toList = excludeMark := rfl
  unfold key
  simp only [toString, String.toList_append, String.toList_intercalate, hsep, hignore, hexclude,
    List.append_assoc, List.cons_append]

/-- Names none of which is all blank or contains a comma are pieces of what they are joined to. -/
theorem isPiece_of_mem {names : NameSet} (hcomma : ∀ n ∈ names, ',' ∉ n.toList)
    (hblank : ∀ n ∈ names, Text.isAllBlank n = false) :
    ∀ p ∈ names.toList.map String.toList, Text.IsPiece ',' p := by
  intro p hp
  obtain ⟨n, hn, rfl⟩ := List.mem_map.mp hp
  exact ⟨hcomma n hn, Text.toList_ne_nil (hblank n hn)⟩

/-- Sets of names without commas that are joined to the same text are equal. -/
theorem names_eq_of_intercalate_eq {s t : NameSet}
    (hs : ∀ p ∈ s.toList.map String.toList, Text.IsPiece ',' p)
    (ht : ∀ p ∈ t.toList.map String.toList, Text.IsPiece ',' p)
    (h : [','].intercalate (s.toList.map String.toList) =
      [','].intercalate (t.toList.map String.toList)) : s = t := by
  have hmap := Text.eq_of_intercalate_eq hs ht h
  have hnames : s.toList = t.toList :=
    List.map_injective_iff.mpr (fun _ _ => String.toList_inj.mp) hmap
  exact NameSet.ext_mem fun x => by rw [← NameSet.mem_toList, hnames, NameSet.mem_toList]

/-- The joined ignored slots do not contain the word that ends them. -/
theorem Separable.mark_not_infix {c : Constraints} (hc : c.Separable) :
    ¬ excludeMark <:+: [','].intercalate (c.ignoredSlots.toList.map String.toList) := by
  intro h
  obtain ⟨p, hp, hmark⟩ := Text.infix_of_infix_intercalate (by decide) (by decide) h
  obtain ⟨name, hname, rfl⟩ := List.mem_map.mp hp
  exact hc.ignored_mark name hname hmark

/-- Valid constraints whose names contain neither a comma nor, among the ignored slots, the word
in front of the excluded items, are equal if they are written alike: no two of them share stored
results. -/
theorem key_eq_of_separable {c₁ c₂ : Constraints} (hv₁ : c₁.validate = .ok ())
    (hv₂ : c₂.validate = .ok ()) (hs₁ : c₁.Separable) (hs₂ : c₂.Separable)
    (h : c₁.key = c₂.key) : c₁ = c₂ := by
  obtain ⟨hib₁, heb₁⟩ := not_isAllBlank_of_validate hv₁
  obtain ⟨hib₂, heb₂⟩ := not_isAllBlank_of_validate hv₂
  have hkey := congrArg String.toList h
  rw [toList_key, toList_key] at hkey
  -- The first bar ends the levels, the first `|exclude=` the ignored slots.
  obtain ⟨hlevels, hrest⟩ := Text.eq_of_append_cons (TraderLevels.bar_not_mem_key _)
    (TraderLevels.bar_not_mem_key _) hkey
  have hsets := List.append_cancel_left hrest
  have hmark : excludeMark = '|' :: "exclude=".toList := by decide
  have hend₁ := hs₁.mark_not_infix
  have hend₂ := hs₂.mark_not_infix
  rw [hmark] at hsets hend₁ hend₂
  obtain ⟨hignored, hexcluded⟩ := Text.eq_of_append_mark (by decide) hend₁ hend₂ hsets
  have h₁ : c₁.levels = c₂.levels :=
    TraderLevels.key_injective (String.toList_inj.mp hlevels)
  have h₂ : c₁.ignoredSlots = c₂.ignoredSlots :=
    names_eq_of_intercalate_eq (isPiece_of_mem hs₁.ignored_comma hib₁)
      (isPiece_of_mem hs₂.ignored_comma hib₂) hignored
  have h₃ : c₁.excludedItems = c₂.excludedItems :=
    names_eq_of_intercalate_eq (isPiece_of_mem hs₁.excluded_comma heb₁)
      (isPiece_of_mem hs₂.excluded_comma heb₂) hexcluded
  cases c₁
  cases c₂
  simp only at h₁ h₂ h₃
  rw [h₁, h₂, h₃]

/-- The order in which names are given does not show in the written form. -/
theorem key_eq_of_separable_sample :
    let c₁ := ((ofLevels (.uniform 4)).ignoreSlot "mod_scope").ignoreSlot "mod_stock"
    let c₂ := ((ofLevels (.uniform 4)).ignoreSlot "mod_stock").ignoreSlot "mod_scope"
    c₁.validate = .ok () ∧ c₂.validate = .ok () ∧ c₁.Separable ∧ c₂.Separable ∧
      c₁.key = c₂.key ∧ c₁ = c₂ := by
  intro c₁ c₂
  have hv₁ : c₁.validate = .ok () := rfl
  have hv₂ : c₂.validate = .ok () := rfl
  have hs₁ : c₁.Separable := by decide
  have hs₂ : c₂.Separable := by decide
  have hkey : c₁.key = c₂.key := by decide +kernel
  exact ⟨hv₁, hv₂, hs₁, hs₂, hkey, key_eq_of_separable hv₁ hv₂ hs₁ hs₂ hkey⟩

/-- A comma in a name is not told from the comma between two names: the slot name that is the
join of two others is written like the two. -/
theorem not_key_injective :
    ∃ c₁ c₂ : Constraints, c₁.validate = .ok () ∧ c₂.validate = .ok () ∧ c₁.key = c₂.key ∧
      c₁ ≠ c₂ := by
  refine ⟨(ofLevels (.uniform 4)).ignoreSlot "scope,stock",
    ((ofLevels (.uniform 4)).ignoreSlot "scope").ignoreSlot "stock", rfl, rfl, rfl, ?_⟩
  intro h
  have hslots := congrArg ignoredSlots h
  exact absurd hslots (by decide)

end Constraints

end Gunsmith
