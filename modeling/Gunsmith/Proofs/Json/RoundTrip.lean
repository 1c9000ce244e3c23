/-
  Written values are read back.

  Whatever is stored as a JSON text comes back as it was (`Json.read_print`).  Behind a
  number the reader looks one character ahead, so the statement for a value inside of a
  text asks that the value is followed by nothing, by a comma or by a closing bracket
  (`Json.Closes`), as it always is where the writer puts it.

  The proof follows the reader: first numbers and strings, then, by induction on the fuel,
  values together with the items of lists and the members of objects.  The length of the
  written form is fuel enough.
-/
import Gunsmith.Json.Printer
import Gunsmith.Json.Reader
import Mathlib.Tactic.SplitIfs

namespace Gunsmith.Json

/-! ### What stands behind a value -/

/-- The text ends, goes on with a comma, or closes a list or an object. -/
def Closes (rest : List Char) : Prop :=
  ∀ c ∈ rest.head?, c = ',' ∨ c = ']' ∨ c = '}'

theorem closes_nil : Closes [] := by
  intro c hc
  exact absurd hc nofun

theorem closes_cons {c : Char} (h : c = ',' ∨ c = ']' ∨ c = '}') (rest : List Char) :
    Closes (c :: rest) := by
  intro d hd
  obtain rfl := Option.some.inj hd
  exact h

theorem skipSpace_cons {c : Char} (h : isSpace c = false) (cs : List Char) :
    skipSpace (c :: cs) = c :: cs := by
  rw [skipSpace, List.dropWhile_cons_of_neg (by simp [h])]

/-! ### Numbers -/

theorem digitsValue_toDigits (n : Nat) : digitsValue (Nat.toDigits 10 n) = n :=
  Nat.ofDigitChars_toDigits (by decide) (by decide)

/-- A number other than zero is written without a leading zero. -/
theorem toDigits_eq_cons {n : Nat} (h : 0 < n) :
    ∃ d ds, Nat.toDigits 10 n = d :: ds ∧ d ≠ '0' := by
  induction n using Nat.strongRecOn with
  | _ n ih =>
    by_cases hn : n < 10
    · refine ⟨n.digitChar, [], Nat.toDigits_of_lt_base hn, ?_⟩
      have : ∀ m < 10, 0 < m → Nat.digitChar m ≠ '0' := by decide
      exact this n hn h
    · obtain ⟨d, ds, hd, hne⟩ := ih (n / 10) (by omega) (by omega)
      refine ⟨d, ds ++ [(n % 10).digitChar], ?_, hne⟩
      rw [Nat.toDigits_of_base_le (by decide) (by omega), hd, List.cons_append]

theorem noDigits_of_closes {rest : List Char} (h : Closes rest) :
    rest.takeWhile Char.isDigit = [] ∧ rest.dropWhile Char.isDigit = rest := by
  cases rest with
  | nil => exact ⟨rfl, rfl⟩
  | cons c cs =>
    have hc : c.isDigit = false := by
      rcases h c rfl with rfl | rfl | rfl <;> decide
    exact ⟨List.takeWhile_cons_of_neg (by simp [hc]), List.dropWhile_cons_of_neg (by simp [hc])⟩

theorem wholeDigits?_toDigits (n : Nat) {rest : List Char} (h : Closes rest) :
    wholeDigits? (Nat.toDigits 10 n ++ rest) = some (Nat.toDigits 10 n, rest) := by
  obtain ⟨htake, hdrop⟩ := noDigits_of_closes h
  rcases Nat.eq_zero_or_pos n with rfl | hn
  · rfl
  · obtain ⟨d, ds, hd, hne⟩ := toDigits_eq_cons hn
    have hdigits : ∀ c ∈ d :: ds, c.isDigit = true := by
      intro c hc
      rw [← hd] at hc
      exact Nat.isDigit_of_mem_toDigits (by decide) (by decide) hc
    have hall : ∀ c ∈ ds, c.isDigit = true := fun c hc => hdigits c (List.mem_cons_of_mem d hc)
    rw [hd, List.cons_append]
    unfold wholeDigits?
    split
    · next heq => exact absurd (List.cons.inj heq).1 hne
    · next heq =>
      obtain ⟨rfl, rfl⟩ := List.cons.inj heq
      rw [if_pos (hdigits d List.mem_cons_self), List.takeWhile_append_of_pos hall,
        List.dropWhile_append_of_pos hall, htake, hdrop, List.append_nil]
    · next heq => exact absurd heq nofun

theorem fraction?_of_closes {rest : List Char} (h : Closes rest) :
    fraction? rest = some (false, rest) := by
  unfold fraction?
  split
  · next cs => exact absurd (h '.' rfl) (by decide)
  · rfl

theorem exponent?_of_closes {rest : List Char} (h : Closes rest) :
    exponent? rest = some (false, rest) := by
  unfold exponent?
  split <;> first | rfl | exact absurd (h _ rfl) (by decide)

theorem number?_toDigits (negative : Bool) (n : Nat) {rest : List Char} (h : Closes rest) :
    number? negative (Nat.toDigits 10 n ++ rest) =
      some (whole negative (Nat.toDigits 10 n), rest) := by
  unfold number?
  rw [wholeDigits?_toDigits n h]
  simp [fraction?_of_closes h, exponent?_of_closes h]

/-! ### Strings -/

/-- Two hexadecimal digits behind two zeros denote the control character that they were written
for. -/
theorem hexUnit?_escape : ∀ n < 0x20,
    hexUnit? '0' '0' (hexDigit (n / 16)) (hexDigit (n % 16)) = some n := by
  decide

/-- A unit that is no half of a surrogate pair is the character with its number. -/
theorem joinPieces_unit {n : Nat} (h : n < 0x20) (ps : List Piece) :
    joinPieces (.unit n :: ps) = (joinPieces ps).map (Char.ofNat n :: ·) := by
  have hhigh : isHighHalf n = false := by
    have : ¬ 0xD800 ≤ n := by omega
    simp [isHighHalf, this]
  have hlow : isLowHalf n = false := by
    have : ¬ 0xDC00 ≤ n := by omega
    simp [isLowHalf, this]
  cases ps with
  | nil => simp [joinPieces, hhigh, hlow]
  | cons p ps => cases p <;> simp [joinPieces, hhigh, hlow]

/-- An escape with a letter is read as the character that the letter stands for. -/
theorem scanString_letter {e c : Char} (he : e ≠ 'u') (h : escaped? e = some c)
    (cs : List Char) :
    scanString ('\\' :: e :: cs) = (scanString cs).map fun r => (.char c :: r.1, r.2) := by
  rw [scanString]
  · rw [h]
    cases scanString cs <;> rfl
  · intro _ _ _ _ _ heq
    exact fun _ => he heq

/-- A character that needs no escape is read as it stands. -/
theorem scanString_plain {c : Char} (hquote : c ≠ '"') (hslash : c ≠ '\\') (h : ¬ c.toNat < 0x20)
    (cs : List Char) :
    scanString (c :: cs) = (scanString cs).map fun r => (.char c :: r.1, r.2) := by
  rw [scanString]
  · rw [if_neg (by simp [h, hslash])]
    cases scanString cs <;> rfl
  all_goals simp_all

/-- The written form of a character is read as one piece, which stands for the character. -/
theorem scanString_escape (c : Char) :
    ∃ p, (∀ cs, scanString (escape c ++ cs) = (scanString cs).map fun r => (p :: r.1, r.2)) ∧
      ∀ ps, joinPieces (p :: ps) = (joinPieces ps).map (c :: ·) := by
  have letter : ∀ e, e ≠ 'u' → escaped? e = some c → escape c = ['\\', e] →
      ∃ p, (∀ cs, scanString (escape c ++ cs) = (scanString cs).map fun r => (p :: r.1, r.2)) ∧
        ∀ ps, joinPieces (p :: ps) = (joinPieces ps).map (c :: ·) := by
    intro e he hc heq
    rw [heq]
    exact ⟨.char c, scanString_letter he hc, fun _ => rfl⟩
  by_cases h₁ : c = '"'
  · subst h₁
    exact letter '"' (by decide) rfl rfl
  by_cases h₂ : c = '\\'
  · subst h₂
    exact letter '\\' (by decide) rfl rfl
  by_cases h₃ : c = '\x08'
  · subst h₃
    exact letter 'b' (by decide) rfl rfl
  by_cases h₄ : c = '\x0c'
  · subst h₄
    exact letter 'f' (by decide) rfl rfl
  by_cases h₅ : c = '\n'
  · subst h₅
    exact letter 'n' (by decide) rfl rfl
  by_cases h₆ : c = '\r'
  · subst h₆
    exact letter 'r' (by decide) rfl rfl
  by_cases h₇ : c = '\t'
  · subst h₇
    exact letter 't' (by decide) rfl rfl
  by_cases hcontrol : c.toNat < 0x20
  · refine ⟨.unit c.toNat, fun cs => ?_, fun ps => ?_⟩
    · have heq : escape c = ['\\', 'u', '0', '0', hexDigit (c.toNat / 16),
          hexDigit (c.toNat % 16)] := by
        simp only [escape, if_neg h₁, if_neg h₂, if_neg h₃, if_neg h₄, if_neg h₅, if_neg h₆,
          if_neg h₇, if_pos hcontrol]
      rw [heq]
      simp only [List.cons_append, List.nil_append, scanString]
      rw [hexUnit?_escape _ hcontrol]
      cases scanString cs <;> rfl
    · rw [joinPieces_unit hcontrol, Char.ofNat_toNat]
  · refine ⟨.char c, fun cs => ?_, fun _ => rfl⟩
    have heq : escape c = [c] := by
      simp only [escape, if_neg h₁, if_neg h₂, if_neg h₃, if_neg h₄, if_neg h₅, if_neg h₆,
        if_neg h₇, if_neg hcontrol]
    rw [heq]
    exact scanString_plain h₁ h₂ hcontrol cs

/-- The written form of a text is read back from behind its opening quote. -/
theorem string?_escaped (s : String) (rest : List Char) :
    string? (s.toList.flatMap escape ++ '"' :: rest) = some (some s, rest) := by
  have hscan : ∀ cs : List Char, ∃ ps,
      scanString (cs.flatMap escape ++ '"' :: rest) = some (ps, rest) ∧
        joinPieces ps = some cs := by
    intro cs
    induction cs with
    | nil => exact ⟨[], rfl, rfl⟩
    | cons c cs ih =>
      obtain ⟨ps, hps, hjoin⟩ := ih
      obtain ⟨p, hp, hpjoin⟩ := scanString_escape c
      refine ⟨p :: ps, ?_, ?_⟩
      · rw [List.flatMap_cons, List.append_assoc, hp, hps]
        rfl
      · rw [hpjoin, hjoin]
        rfl
  obtain ⟨ps, hps, hjoin⟩ := hscan s.toList
  simp [string?, hps, hjoin]

/-! ### Values -/

/-- The reader gives back every value whose written form is no longer than the fuel. -/
def ReadsBack (fuel : Nat) : Prop :=
  ∀ v rest, Closes rest → (chars v).length ≤ fuel → value fuel (chars v ++ rest) = some (v, rest)

theorem chars_ofNat (n : Nat) : chars (.int n) = Nat.toDigits 10 n := Nat.toList_repr

theorem chars_negSucc (n : Nat) : chars (.int (.negSucc n)) = '-' :: Nat.toDigits 10 (n + 1) := by
  show (toString (Int.negSucc n)).toList = _
  rw [Int.toString_eq_repr]
  show ("-" ++ (n + 1).repr).toList = _
  rw [String.toList_append, Nat.toList_repr]
  rfl

/-- A number of no sign begins with a digit. -/
theorem toDigits_head (n : Nat) : ∃ d ds, Nat.toDigits 10 n = d :: ds ∧ d.isDigit = true := by
  cases h : Nat.toDigits 10 n with
  | nil => exact absurd h Nat.toDigits_ne_nil
  | cons d ds =>
    refine ⟨d, ds, rfl, Nat.isDigit_of_mem_toDigits (b := 10) (n := n) (by decide) (by decide) ?_⟩
    rw [h]
    exact List.mem_cons_self

/-- The written form of a value begins with a character that is neither a blank nor a bracket that
closes. -/
theorem chars_eq_cons (v : Json) :
    ∃ c cs, chars v = c :: cs ∧ isSpace c = false ∧ c ≠ ']' := by
  cases v with
  | null => exact ⟨_, _, rfl, by decide, by decide⟩
  | bool b => cases b <;> exact ⟨_, _, rfl, by decide, by decide⟩
  | int n =>
    cases n with
    | ofNat n =>
      obtain ⟨d, ds, hd, hdigit⟩ := toDigits_head n
      refine ⟨d, ds, (chars_ofNat n).trans hd, ?_, ?_⟩
      · simp only [isSpace, Bool.or_eq_false_iff, beq_eq_false_iff_ne]
        refine ⟨⟨⟨?_, ?_⟩, ?_⟩, ?_⟩ <;> (rintro rfl; exact absurd hdigit (by decide))
      · rintro rfl
        exact absurd hdigit (by decide)
    | negSucc n => exact ⟨_, _, chars_negSucc n, by decide, by decide⟩
  | decimal => exact ⟨_, _, rfl, by decide, by decide⟩
  | text s => exact ⟨_, _, rfl, by decide, by decide⟩
  | unreadable => exact ⟨_, _, rfl, by decide, by decide⟩
  | list items => exact ⟨_, _, rfl, by decide, by decide⟩
  | object members => exact ⟨_, _, rfl, by decide, by decide⟩

/-- The items of a list begin as the first of them. -/
theorem itemChars_eq_cons (v : Json) (items : List Json) :
    ∃ c cs, itemChars (v :: items) = c :: cs ∧ isSpace c = false ∧ c ≠ ']' := by
  obtain ⟨c, cs, hc, h⟩ := chars_eq_cons v
  cases items with
  | nil => exact ⟨c, cs, by rw [itemChars, hc], h⟩
  | cons w items => exact ⟨c, _, by rw [itemChars, hc, List.cons_append], h⟩

/-- The members of an object begin with a quote. -/
theorem memberChars_eq_cons (m : String × Json) (members : List (String × Json)) :
    ∃ cs, memberChars (m :: members) = '"' :: cs := by
  obtain ⟨k, v⟩ := m
  cases members with
  | nil => exact ⟨_, rfl⟩
  | cons m members => exact ⟨_, rfl⟩

/-- Where a digit comes first, a number is read. -/
theorem value_of_isDigit (fuel : Nat) {d : Char} (h : d.isDigit = true) (cs : List Char) :
    value (fuel + 1) (d :: cs) = number? false (d :: cs) := by
  have hne : ∀ c : Char, c.isDigit = false → d ≠ c := by
    rintro c hc rfl
    rw [h] at hc
    exact absurd hc nofun
  have hspace : isSpace d = false := by
    simp only [isSpace, Bool.or_eq_false_iff, beq_eq_false_iff_ne]
    exact ⟨⟨⟨hne _ rfl, hne _ rfl⟩, hne _ rfl⟩, hne _ rfl⟩
  rw [value, skipSpace_cons hspace]
  split
  case h_8 => rfl
  all_goals next heq => exact absurd (List.cons.inj heq).1 (hne _ rfl)

theorem itemsFrom_comma {fuel : Nat} {v : Json} {cs rest : List Char}
    (h : value fuel cs = some (v, ',' :: rest)) :
    itemsFrom (fuel + 1) cs = (itemsFrom fuel rest).map fun r => (v :: r.1, r.2) := by
  rw [itemsFrom, h]
  simp only [Option.bind_eq_bind, Option.bind_some]
  rw [skipSpace_cons (by decide)]
  show (itemsFrom fuel rest).bind _ = _
  cases itemsFrom fuel rest <;> rfl

theorem itemsFrom_bracket {fuel : Nat} {v : Json} {cs rest : List Char}
    (h : value fuel cs = some (v, ']' :: rest)) :
    itemsFrom (fuel + 1) cs = some ([v], rest) := by
  rw [itemsFrom, h]
  simp only [Option.bind_eq_bind, Option.bind_some]
  rw [skipSpace_cons (by decide)]
  rfl

/-- The items of a list that has one are read, if the fuel serves for each of them. -/
theorem itemsFrom_itemChars (fuel : Nat) (h : ∀ g < fuel, ReadsBack g) {items : List Json}
    (hne : items ≠ []) (rest : List Char) (hfuel : (itemChars items).length < fuel) :
    itemsFrom fuel (itemChars items ++ ']' :: rest) = some (items, rest) := by
  induction items generalizing fuel with
  | nil => exact absurd rfl hne
  | cons v items ih =>
    obtain ⟨fuel, rfl⟩ : ∃ g, fuel = g + 1 := ⟨fuel - 1, by omega⟩
    have hread := h fuel (by omega)
    cases items with
    | nil =>
      have hlen : (chars v).length ≤ fuel := Nat.le_of_lt_succ hfuel
      exact itemsFrom_bracket (hread v (']' :: rest) (closes_cons (by decide) rest) hlen)
    | cons w items =>
      have hchars : itemChars (v :: w :: items) = chars v ++ ',' :: itemChars (w :: items) := by
        rw [itemChars]
      rw [hchars, List.append_assoc, List.cons_append]
      rw [hchars, List.length_append, List.length_cons] at hfuel
      have hitems := ih fuel (fun g hg => h g (by omega)) (List.cons_ne_nil w items) (by
        obtain ⟨c, cs, hc, -⟩ := chars_eq_cons v
        rw [hc, List.length_cons] at hfuel
        omega)
      rw [itemsFrom_comma (hread v _ (closes_cons (by decide) _) (by omega)), hitems]
      rfl

/-- Where a quote comes first, a string is read. -/
theorem value_quote (fuel : Nat) (cs : List Char) :
    value (fuel + 1) ('"' :: cs) =
      (string? cs).map fun r => ((r.1.map Json.text).getD .unreadable, r.2) := by
  rw [value, skipSpace_cons (by decide)]
  simp only
  cases string? cs <;> rfl

/-- A list that does not close at once has items. -/
theorem value_bracket (fuel : Nat) {c : Char} (hspace : isSpace c = false) (hne : c ≠ ']')
    (cs : List Char) :
    value (fuel + 1) ('[' :: c :: cs) =
      (itemsFrom fuel (c :: cs)).map fun r => (.list r.1, r.2) := by
  rw [value, skipSpace_cons (by decide)]
  simp only
  rw [skipSpace_cons hspace]
  split
  · next heq => exact absurd (List.cons.inj heq).1 hne
  · cases itemsFrom fuel (c :: cs) <;> rfl

/-- An object that does not close at once has members. -/
theorem value_brace (fuel : Nat) {c : Char} (hspace : isSpace c = false) (hne : c ≠ '}')
    (cs : List Char) :
    value (fuel + 1) ('{' :: c :: cs) =
      (membersFrom fuel (c :: cs)).map fun r => (ofMembers r.1, r.2) := by
  rw [value, skipSpace_cons (by decide)]
  simp only
  rw [skipSpace_cons hspace]
  split
  · next heq => exact absurd (List.cons.inj heq).1 hne
  · cases membersFrom fuel (c :: cs) <;> rfl

/-- A member as the reader finds it. -/
def found (member : String × Json) : Option String × Json := (some member.1, member.2)

theorem ofMembers_found (members : List (String × Json)) :
    ofMembers (members.map found) = .object members := by
  have hall : (members.map found).mapM (fun m => m.1.map (·, m.2)) = some members := by
    induction members with
    | nil => rfl
    | cons m members ih => simp [found, ih]
  rw [ofMembers]
  simp only [hall]

theorem membersFrom_comma {fuel : Nat} {v : Json} {k : String} {cs rest : List Char}
    (h : value fuel cs = some (v, ',' :: rest)) :
    membersFrom (fuel + 1) (quoted k ++ ':' :: cs) =
      (membersFrom fuel rest).map fun r => (found (k, v) :: r.1, r.2) := by
  simp only [quoted, List.cons_append, List.append_assoc, List.nil_append]
  rw [membersFrom, skipSpace_cons (by decide)]
  simp only [string?_escaped, Option.bind_eq_bind, Option.bind_some]
  rw [skipSpace_cons (by decide)]
  simp only [h, Option.bind_some]
  rw [skipSpace_cons (by decide)]
  show (membersFrom fuel rest).bind _ = _
  cases membersFrom fuel rest <;> rfl

theorem membersFrom_brace {fuel : Nat} {v : Json} {k : String} {cs rest : List Char}
    (h : value fuel cs = some (v, '}' :: rest)) :
    membersFrom (fuel + 1) (quoted k ++ ':' :: cs) = some ([found (k, v)], rest) := by
  simp only [quoted, List.cons_append, List.append_assoc, List.nil_append]
  rw [membersFrom, skipSpace_cons (by decide)]
  simp only [string?_escaped, Option.bind_eq_bind, Option.bind_some]
  rw [skipSpace_cons (by decide)]
  simp only [h, Option.bind_some]
  rw [skipSpace_cons (by decide)]
  rfl

/-- The members of an object that has one are read, if the fuel serves for each of them. -/
theorem membersFrom_memberChars (fuel : Nat) (h : ∀ g < fuel, ReadsBack g)
    {members : List (String × Json)} (hne : members ≠ []) (rest : List Char)
    (hfuel : (memberChars members).length < fuel) :
    membersFrom fuel (memberChars members ++ '}' :: rest) = some (members.map found, rest) := by
  induction members generalizing fuel with
  | nil => exact absurd rfl hne
  | cons m members ih =>
    obtain ⟨k, v⟩ := m
    obtain ⟨fuel, rfl⟩ : ∃ g, fuel = g + 1 := ⟨fuel - 1, by omega⟩
    have hread := h fuel (by omega)
    cases members with
    | nil =>
      have hchars : memberChars [(k, v)] = quoted k ++ ':' :: chars v := by
        rw [memberChars]
      rw [hchars, List.append_assoc, List.cons_append]
      rw [hchars, List.length_append, List.length_cons] at hfuel
      exact membersFrom_brace (hread v _ (closes_cons (by decide) rest) (by omega))
    | cons m members =>
      have hchars : memberChars ((k, v) :: m :: members) =
          quoted k ++ ':' :: (chars v ++ ',' :: memberChars (m :: members)) := by
        rw [memberChars, List.append_assoc, List.cons_append]
      rw [hchars, List.append_assoc, List.cons_append, List.append_assoc, List.cons_append]
      rw [hchars, List.length_append, List.length_cons, List.length_append, List.length_cons]
        at hfuel
      have hmembers := ih fuel (fun g hg => h g (by omega)) (List.cons_ne_nil m members) (by omega)
      rw [membersFrom_comma (hread v _ (closes_cons (by decide) _) (by omega)), hmembers]
      rfl

/-- Every value is read back from its written form, whatever closes behind it. -/
theorem value_chars (fuel : Nat) : ReadsBack fuel := by
  induction fuel using Nat.strongRecOn with
  | _ fuel ih =>
  intro v rest hrest hfuel
  obtain ⟨fuel, rfl⟩ : ∃ g, fuel = g + 1 := by
    obtain ⟨c, cs, hc, -⟩ := chars_eq_cons v
    rw [hc, List.length_cons] at hfuel
    exact ⟨fuel - 1, by omega⟩
  cases v with
  | null => rfl
  | bool b => cases b <;> rfl
  | int n =>
    cases n with
    | ofNat n =>
      have hchars : chars (.int (Int.ofNat n)) = Nat.toDigits 10 n := chars_ofNat n
      obtain ⟨d, ds, hd, hdigit⟩ := toDigits_head n
      have hvalue := value_of_isDigit fuel hdigit (ds ++ rest)
      rw [← List.cons_append, ← hd, number?_toDigits false n hrest] at hvalue
      rw [hchars, hvalue, whole, digitsValue_toDigits]
      rfl
    | negSucc n =>
      rw [chars_negSucc, List.cons_append]
      show number? true (Nat.toDigits 10 (n + 1) ++ rest) = _
      rw [number?_toDigits true (n + 1) hrest, whole, digitsValue_toDigits, if_pos rfl,
        if_neg (Nat.succ_ne_zero n)]
      rfl
  | decimal =>
    show number? true (Nat.toDigits 10 0 ++ rest) = _
    rw [number?_toDigits true 0 hrest]
    rfl
  | text s =>
    have hchars : chars (.text s) ++ rest = '"' :: (s.toList.flatMap escape ++ '"' :: rest) := by
      rw [chars, quoted, List.cons_append, List.cons_append, List.append_assoc,
        List.singleton_append]
    rw [hchars, value_quote, string?_escaped]
    rfl
  | unreadable =>
    have hunit : hexUnit? 'd' '8' '0' '0' = some 0xD800 := by decide
    have hstring : string? ('\\' :: 'u' :: 'd' :: '8' :: '0' :: '0' :: '"' :: rest) =
        some (none, rest) := by
      simp [string?, scanString, hunit, joinPieces, isHighHalf]
    refine (value_quote fuel ('\\' :: 'u' :: 'd' :: '8' :: '0' :: '0' :: '"' :: rest)).trans ?_
    rw [hstring]
    rfl
  | list items =>
    cases items with
    | nil => rfl
    | cons v items =>
      have hchars : chars (.list (v :: items)) = '[' :: itemChars (v :: items) ++ [']'] := by
        rw [chars]
      rw [hchars, List.length_append, List.length_cons, List.length_singleton] at hfuel
      have hitems := itemsFrom_itemChars fuel (fun g hg => ih g (by omega))
        (List.cons_ne_nil v items) rest (by omega)
      obtain ⟨c, cs, hc, hspace, hne⟩ := itemChars_eq_cons v items
      rw [hchars, List.append_assoc, List.singleton_append, List.cons_append]
      rw [hc, List.cons_append] at hitems ⊢
      rw [value_bracket fuel hspace hne, hitems]
      rfl
  | object members =>
    cases members with
    | nil => rfl
    | cons m members =>
      have hchars : chars (.object (m :: members)) =
          '{' :: memberChars (m :: members) ++ ['}'] := by
        rw [chars]
      rw [hchars, List.length_append, List.length_cons, List.length_singleton] at hfuel
      have hmembers := membersFrom_memberChars fuel (fun g hg => ih g (by omega))
        (List.cons_ne_nil m members) rest (by omega)
      obtain ⟨cs, hc⟩ := memberChars_eq_cons m members
      rw [hchars, List.append_assoc, List.singleton_append, List.cons_append]
      rw [hc, List.cons_append] at hmembers ⊢
      rw [value_brace fuel (by decide) (by decide), hmembers, Option.map_some, ofMembers_found]

/-- **What is written is read back.** -/
theorem read_print (v : Json) : read v.print = some v := by
  have hlen : (chars v).length ≤ v.print.length + 1 := by
    rw [print, String.length_ofList]
    exact Nat.le_succ _
  have hvalue := value_chars _ v [] closes_nil hlen
  rw [List.append_nil] at hvalue
  rw [read]
  have htext : v.print.toList = chars v := String.toList_ofList
  rw [htext, hvalue]
  rfl

end Gunsmith.Json
