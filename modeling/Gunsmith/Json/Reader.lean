/-
  Reading JSON texts.

  The grammar is that of the JSON standard, without extensions: no leading zeros, no
  trailing commas, no control characters inside strings, and only space, tab, line feed
  and carriage return between tokens.

  Strings are read in two steps.  `scanString` splits a string into pieces, a character
  or a 16-bit unit from an escape, and needs only the syntax; `joinPieces` puts the
  pieces together and fails where half a surrogate pair stands alone.  A string whose
  second step fails is `Json.unreadable`, which is not an error of the grammar.

  `value` works with fuel; every nested value stands behind at least one character, so
  the length of the text is fuel enough, and `read` supplies it.
-/
import Gunsmith.Json.Basic

namespace Gunsmith.Json

/-! ### Blanks and numbers -/

/-- The four characters that may stand between tokens. -/
def isSpace (c : Char) : Bool :=
  c == ' ' || c == '\t' || c == '\n' || c == '\r'

/-- Drops the blanks in front. -/
def skipSpace (cs : List Char) : List Char :=
  cs.dropWhile isSpace

/-- The number that a run of decimal digits denotes. -/
def digitsValue (ds : List Char) : Nat :=
  ds.foldl (fun n d => 10 * n + (d.toNat - '0'.toNat)) 0

/-- Reads a fraction if there is one: whether there was, and the rest. -/
def fraction? : List Char → Option (Bool × List Char)
  | '.' :: cs =>
    if (cs.takeWhile Char.isDigit).isEmpty then none else some (true, cs.dropWhile Char.isDigit)
  | cs => some (false, cs)

/-- Reads the digits of an exponent, of which there has to be one. -/
def exponentDigits? (cs : List Char) : Option (Bool × List Char) :=
  if (cs.takeWhile Char.isDigit).isEmpty then none else some (true, cs.dropWhile Char.isDigit)

/-- Reads an exponent if there is one: whether there was, and the rest. -/
def exponent? : List Char → Option (Bool × List Char)
  | 'e' :: '+' :: cs => exponentDigits? cs
  | 'e' :: '-' :: cs => exponentDigits? cs
  | 'e' :: cs => exponentDigits? cs
  | 'E' :: '+' :: cs => exponentDigits? cs
  | 'E' :: '-' :: cs => exponentDigits? cs
  | 'E' :: cs => exponentDigits? cs
  | cs => some (false, cs)

/-- Reads the digits before the point: a zero alone, or digits that start with another. -/
def wholeDigits? : List Char → Option (List Char × List Char)
  | '0' :: cs => some (['0'], cs)
  | c :: cs =>
    if c.isDigit then some (c :: cs.takeWhile Char.isDigit, cs.dropWhile Char.isDigit) else none
  | [] => none

/-- The value of a number with the given sign and digits and neither fraction nor exponent. -/
def whole (negative : Bool) (ds : List Char) : Json :=
  if negative then
    if digitsValue ds = 0 then .decimal else .int (-(digitsValue ds : Int))
  else .int (digitsValue ds)

/-- Reads a number from behind its sign. -/
def number? (negative : Bool) (cs : List Char) : Option (Json × List Char) := do
  let (ds, cs) ← wholeDigits? cs
  let (fractional, cs) ← fraction? cs
  let (scaled, cs) ← exponent? cs
  return (if fractional || scaled then .decimal else whole negative ds, cs)

/-! ### Strings -/

/-- A piece of a string: a character as it stands, or a 16-bit unit from an escape. -/
inductive Piece where
  | char (c : Char)
  | unit (n : Nat)

/-- The value of a hexadecimal digit. -/
def hexDigit? (c : Char) : Option Nat :=
  if c.isDigit then some (c.toNat - '0'.toNat)
  else if 'a' ≤ c ∧ c ≤ 'f' then some (c.toNat - 'a'.toNat + 10)
  else if 'A' ≤ c ∧ c ≤ 'F' then some (c.toNat - 'A'.toNat + 10)
  else none

/-- The 16-bit unit that four hexadecimal digits denote. -/
def hexUnit? (a b c d : Char) : Option Nat := do
  return ((← hexDigit? a) * 16 + (← hexDigit? b)) * 256 + (← hexDigit? c) * 16 + (← hexDigit? d)

/-- The character that a one-letter escape denotes. -/
def escaped? : Char → Option Char
  | '"' => some '"'
  | '\\' => some '\\'
  | '/' => some '/'
  | 'b' => some '\x08'
  | 'f' => some '\x0c'
  | 'n' => some '\n'
  | 'r' => some '\r'
  | 't' => some '\t'
  | _ => none

/-- Reads the pieces of a string from behind its opening quote, up to and with the closing one. -/
def scanString : List Char → Option (List Piece × List Char)
  | [] => none
  | '"' :: cs => some ([], cs)
  | '\\' :: 'u' :: a :: b :: c :: d :: cs => do
    let n ← hexUnit? a b c d
    let (ps, cs) ← scanString cs
    return (.unit n :: ps, cs)
  | '\\' :: e :: cs => do
    let c ← escaped? e
    let (ps, cs) ← scanString cs
    return (.char c :: ps, cs)
  | c :: cs =>
    if c.toNat < 0x20 ∨ c = '\\' then none
    else do
      let (ps, cs) ← scanString cs
      return (.char c :: ps, cs)

/-- Holds of the first half of a surrogate pair. -/
def isHighHalf (n : Nat) : Bool := 0xD800 ≤ n && n ≤ 0xDBFF

/-- Holds of the second half of a surrogate pair. -/
def isLowHalf (n : Nat) : Bool := 0xDC00 ≤ n && n ≤ 0xDFFF

/-- Puts the pieces together; fails where half a surrogate pair stands alone. -/
def joinPieces : List Piece → Option (List Char)
  | [] => some []
  | .char c :: ps => (joinPieces ps).map (c :: ·)
  | .unit hi :: .unit lo :: ps =>
    if isHighHalf hi then
      if isLowHalf lo then
        (joinPieces ps).map (Char.ofNat (0x10000 + (hi - 0xD800) * 0x400 + (lo - 0xDC00)) :: ·)
      else none
    else if isLowHalf hi then none
    else (joinPieces (.unit lo :: ps)).map (Char.ofNat hi :: ·)
  | .unit n :: ps =>
    if isHighHalf n || isLowHalf n then none else (joinPieces ps).map (Char.ofNat n :: ·)

/-- Reads a string from behind its opening quote; `none` inside is a string that has no text. -/
def string? (cs : List Char) : Option (Option String × List Char) := do
  let (ps, cs) ← scanString cs
  return ((joinPieces ps).map String.ofList, cs)

/-! ### Values -/

/-- The object with the given members, unless one of the keys has no text. -/
def ofMembers (members : List (Option String × Json)) : Json :=
  match members.mapM fun (key, value) => key.map (·, value) with
  | some members => .object members
  | none => .unreadable

mutual

/-- Reads one value, with blanks before it. -/
def value : Nat → List Char → Option (Json × List Char)
  | 0, _ => none
  | fuel + 1, cs =>
    match skipSpace cs with
    | 'n' :: 'u' :: 'l' :: 'l' :: cs => some (.null, cs)
    | 't' :: 'r' :: 'u' :: 'e' :: cs => some (.bool true, cs)
    | 'f' :: 'a' :: 'l' :: 's' :: 'e' :: cs => some (.bool false, cs)
    | '"' :: cs => do
      let (s, cs) ← string? cs
      return ((s.map Json.text).getD .unreadable, cs)
    | '-' :: cs => number? true cs
    | '[' :: cs =>
      match skipSpace cs with
      | ']' :: cs => some (.list [], cs)
      | cs => do
        let (items, cs) ← itemsFrom fuel cs
        return (.list items, cs)
    | '{' :: cs =>
      match skipSpace cs with
      | '}' :: cs => some (.object [], cs)
      | cs => do
        let (members, cs) ← membersFrom fuel cs
        return (ofMembers members, cs)
    | cs => number? false cs

/-- Reads the items of a list that has one, up to and with the closing bracket. -/
def itemsFrom : Nat → List Char → Option (List Json × List Char)
  | 0, _ => none
  | fuel + 1, cs => do
    let (item, cs) ← value fuel cs
    match skipSpace cs with
    | ',' :: cs =>
      let (items, cs) ← itemsFrom fuel cs
      return (item :: items, cs)
    | ']' :: cs => return ([item], cs)
    | _ => none

/-- Reads the members of an object that has one, up to and with the closing brace. -/
def membersFrom : Nat → List Char → Option (List (Option String × Json) × List Char)
  | 0, _ => none
  | fuel + 1, cs =>
    match skipSpace cs with
    | '"' :: cs => do
      let (key, cs) ← string? cs
      match skipSpace cs with
      | ':' :: cs =>
        let (item, cs) ← value fuel cs
        match skipSpace cs with
        | ',' :: cs =>
          let (members, cs) ← membersFrom fuel cs
          return ((key, item) :: members, cs)
        | '}' :: cs => return ([(key, item)], cs)
        | _ => none
      | _ => none
    | _ => none

end

/-- Reads a whole text: one value with nothing but blanks around it. -/
def read (text : String) : Option Json :=
  match value (text.length + 1) text.toList with
  | some (v, rest) => if (skipSpace rest).isEmpty then some v else none
  | none => none

end Gunsmith.Json
