/-
  The shortest decimal text of a binary number.

  The text has the fewest digits that read back as the same number, and of these the
  digits nearest to it.  The reals that read back as `m · 2 ^ q` form an interval around
  it, whose ends belong to it exactly if `m` is even.  Fewest digits means the coarsest
  grid of multiples of a power of ten that has a point in the interval, so the powers
  are tried from the coarsest down.  Of two points that are equally near, the one further
  from zero is taken.

  Numbers are written in positions, never with an exponent, and whole numbers without a
  point.
-/
import Gunsmith.Decimal.Binary64

namespace Gunsmith.Binary64

-- Powers are those of the natural numbers themselves, and not of a monoid.
attribute [local instance (high)] instPowNat

/-- The quotient, rounded up. -/
def divUp (n d : Nat) : Nat :=
  (n + d - 1) / d

/-- The points of the grid of multiples of `10 ^ t` whose number is between two bounds, as the least
and the largest: `x · num / den` counts grid steps. -/
def gridRange (low high num den : Nat) (closed : Bool) : Nat × Nat :=
  if closed then (divUp (low * num) den, high * num / den)
  else (low * num / den + 1, divUp (high * num) den - 1)

/-- Looks for the coarsest grid with a point in the interval from `low · 2 ^ q` to `high · 2 ^ q`,
and for the point nearest to `mid · 2 ^ q` on it; of two such points the larger one counts. -/
def coarsest (low mid high : Nat) (q : Int) (closed : Bool) : Nat → Int → Nat × Int
  | 0, t => (0, t)
  | fuel + 1, t =>
    let num := 2 ^ q.toNat * 10 ^ (-t).toNat
    let den := 2 ^ (-q).toNat * 10 ^ t.toNat
    let (least, largest) := gridRange low high num den closed
    if least ≤ largest then (min (max (divHalfUp (mid * num) den) least) largest, t)
    else coarsest low mid high q closed fuel (t - 1)

/-- The digits `d` and the exponent `t` of the shortest decimal `d · 10 ^ t` for `m · 2 ^ q`. -/
def shortest (m : Nat) (q : Int) : Nat × Int :=
  -- Below a power of two the neighbour is only half as far away.
  let low := if m = 2 ^ (52 : Nat) ∧ -1074 < q then 4 * m - 1 else 4 * m - 2
  coarsest low (4 * m) (4 * m + 2) (q - 2) (m % 2 = 0) 700 310

/-- Writes `d · 10 ^ t` in positions. -/
def positional (d : Nat) (t : Int) : String :=
  let digits := Nat.toDigits 10 d
  if 0 ≤ t then String.ofList (digits ++ List.replicate t.toNat '0')
  else
    let places := (-t).toNat
    let padded := List.replicate (places + 1 - digits.length) '0' ++ digits
    let point := padded.length - places
    String.ofList (padded.take point ++ '.' :: padded.drop point)

/-- The text of a number. -/
def text (x : Binary64) : String :=
  match x.view with
  | .nan _ => "NaN"
  | .infinite negative => if negative then "-inf" else "inf"
  | .finite negative m q =>
    let (d, t) := if m = 0 then (0, 0) else shortest m q
    if negative then "-" ++ positional d t else positional d t

end Gunsmith.Binary64
