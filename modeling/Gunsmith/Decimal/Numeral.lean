/-
  Reading numbers that people set.

  A whole number is digits with an optional plus sign, and has to fit its type; a number
  with a fraction may have a sign, a point and an exponent, or name an infinity or what
  is not a number.  Each failure has a wording of its own.
-/
import Gunsmith.Decimal.Binary64
import Gunsmith.Text.Letters

namespace Gunsmith.Numeral

/-! ### Whole numbers -/

/-- Reads digits one by one onto a number; a character that is no digit is noticed before the number
gets too large through it. -/
def digits (bound : Nat) : Nat → List Char → Except String Nat
  | n, [] => .ok n
  | n, c :: cs =>
    if c.isDigit then
      if bound < 10 * n + (c.toNat - '0'.toNat) then
        .error "number too large to fit in target type"
      else digits bound (10 * n + (c.toNat - '0'.toNat)) cs
    else .error "invalid digit found in string"

/-- Reads a whole number from zero to a bound. -/
def nat (bound : Nat) (text : String) : Except String Nat :=
  match text.toList with
  | [] => .error "cannot parse integer from empty string"
  | ['+'] => .error "invalid digit found in string"
  | '+' :: cs => digits bound 0 cs
  | cs => digits bound 0 cs

/-! ### Numbers with a fraction -/

/-- The number that a run of digits denotes. -/
def value (ds : List Char) : Nat :=
  ds.foldl (fun n d => 10 * n + (d.toNat - '0'.toNat)) 0

/-- Reads an exponent from behind its letter: a sign and at least one digit, and nothing after. -/
def exponent? (cs : List Char) : Option Int :=
  let (sign, cs) : Int × List Char := match cs with
    | '+' :: cs => (1, cs)
    | '-' :: cs => (-1, cs)
    | cs => (1, cs)
  if cs.isEmpty ∨ ¬ cs.all Char.isDigit then none else some (sign * value cs)

/-- Reads a number without a sign as digits and an exponent of ten. -/
def scientific? (cs : List Char) : Option (Nat × Int) := do
  let whole := cs.takeWhile Char.isDigit
  let cs := cs.dropWhile Char.isDigit
  let (fraction, cs) := match cs with
    | '.' :: cs => (cs.takeWhile Char.isDigit, cs.dropWhile Char.isDigit)
    | cs => ([], cs)
  if whole.isEmpty ∧ fraction.isEmpty then none
  let e ← match cs with
    | [] => some 0
    | 'e' :: cs => exponent? cs
    | 'E' :: cs => exponent? cs
    | _ => none
  return (value (whole ++ fraction), e - fraction.length)

/-- Reads a number, or the name of an infinity or of what is not a number. -/
def binary64 (text : String) : Except String Binary64 :=
  let (negative, cs) := match text.toList with
    | '-' :: cs => (true, cs)
    | '+' :: cs => (false, cs)
    | cs => (false, cs)
  let word := Text.lower (String.ofList cs)
  if text.isEmpty then .error "cannot parse float from empty string"
  else if word = "inf" ∨ word = "infinity" then .ok (.infinity negative)
  else if word = "nan" then .ok (.notANumber negative)
  else
    match scientific? cs with
    | some (m, e) => .ok (.ofMagnitude negative (Binary64.nearestDecimal m e))
    | none => .error "invalid float literal"

end Gunsmith.Numeral
