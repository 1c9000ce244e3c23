/-
  Binary floating point of 64 bits, in exact arithmetic.

  A `Binary64` is its 64 bits.  Taken apart (`Binary64.view`), it is not a number, an
  infinity, or `m · 2 ^ q` with a sign.  Going the other way, `nearestRatio` gives the
  bits of the representable number nearest to a fraction, where a tie goes to the even
  neighbour and what is too large becomes infinite.  Nothing here rounds twice, because
  nothing is rounded before the end.
-/

namespace Gunsmith

/-- A binary floating-point number of 64 bits. -/
structure Binary64 where
  bits : UInt64
deriving DecidableEq, Inhabited

namespace Binary64

-- Powers are those of the natural numbers themselves, and not of a monoid.  A numeral in the
-- exponent has its type written out, for otherwise the default would be taken from the monoids.
attribute [local instance (high)] instPowNat

/-- What the bits mean. -/
inductive View where
  | nan (negative : Bool)
  | infinite (negative : Bool)
  /-- The number `m · 2 ^ q`, with a sign. -/
  | finite (negative : Bool) (m : Nat) (q : Int)
deriving DecidableEq

/-- The bits without the sign. -/
def magnitude (x : Binary64) : Nat :=
  x.bits.toNat % 2 ^ (63 : Nat)

/-- The sign bit is set. -/
def negative (x : Binary64) : Bool :=
  decide (2 ^ (63 : Nat) ≤ x.bits.toNat)

/-- Takes a number apart. -/
def view (x : Binary64) : View :=
  let e : Nat := x.magnitude / 2 ^ (52 : Nat)
  let f : Nat := x.magnitude % 2 ^ (52 : Nat)
  if e = 2047 then
    if f = 0 then .infinite x.negative else .nan x.negative
  else if e = 0 then .finite x.negative f (-1074)
  else .finite x.negative (2 ^ (52 : Nat) + f) ((e : Int) - 1075)

/-- The number with a sign and the bits of a magnitude. -/
def ofMagnitude (negative : Bool) (n : Nat) : Binary64 :=
  ⟨UInt64.ofNat (if negative then 2 ^ (63 : Nat) + n else n)⟩

/-- The magnitude of infinity. -/
def infiniteMagnitude : Nat := 2047 * 2 ^ (52 : Nat)

/-- The quotient of two numbers, rounded; a half goes to the even neighbour. -/
def divEven (n d : Nat) : Nat :=
  let s := n / d
  let r := n % d
  if d < 2 * r ∨ (d = 2 * r ∧ s % 2 = 1) then s + 1 else s

/-- The quotient of two numbers, rounded; a half goes up. -/
def divHalfUp (n d : Nat) : Nat :=
  (2 * n + d) / (2 * d)

/-- The quotient of two numbers after the divisor is scaled by a power of two. -/
def divEvenScaled (n d : Nat) (q : Int) : Nat :=
  if 0 ≤ q then divEven n (d * 2 ^ q.toNat) else divEven (n * 2 ^ (-q).toNat) d

/-- The exponent of the leading bit of a fraction. -/
def leadingExponent (n d : Nat) : Int :=
  let k : Int := (n.log2 : Int) - d.log2
  let reached := if 0 ≤ k then decide (d * 2 ^ k.toNat ≤ n) else decide (d ≤ n * 2 ^ (-k).toNat)
  if reached then k else k - 1

/-- The magnitude nearest to the fraction `n / d`, for a positive `d`. -/
def nearestRatio (n d : Nat) : Nat :=
  if n = 0 then 0
  else
    let q := max (leadingExponent n d - 52) (-1074)
    let s := divEvenScaled n d q
    let bits := (q + 1074).toNat * 2 ^ (52 : Nat) + s
    min bits infiniteMagnitude

/-- The magnitude nearest to `m · 2 ^ q`. -/
def nearestScaled (m : Nat) (q : Int) : Nat :=
  if 0 ≤ q then nearestRatio (m * 2 ^ q.toNat) 1 else nearestRatio m (2 ^ (-q).toNat)

/-- The magnitude nearest to `m · 10 ^ e`.  Far outside the range the answer is known without the
power of ten. -/
def nearestDecimal (m : Nat) (e : Int) : Nat :=
  let digits : Int := (Nat.toDigits 10 m).length
  if m = 0 ∨ digits + e < -330 then 0
  else if 330 < digits + e then infiniteMagnitude
  else if 0 ≤ e then nearestRatio (m * 10 ^ e.toNat) 1
  else nearestRatio m (10 ^ (-e).toNat)

/-- The number nearest to a natural number. -/
def ofNat (n : Nat) : Binary64 :=
  ofMagnitude false (nearestRatio n 1)

/-- The infinite number with a sign. -/
def infinity (negative : Bool) : Binary64 :=
  ofMagnitude negative infiniteMagnitude

/-- The bits of what is not a number, with a sign. -/
def notANumber (negative : Bool) : Binary64 :=
  ofMagnitude negative (infiniteMagnitude + 2 ^ (51 : Nat))

/-- The product, rounded. -/
def mul (x y : Binary64) : Binary64 :=
  let sign := x.negative != y.negative
  match x.view, y.view with
  | .nan _, _ => notANumber false
  | _, .nan _ => notANumber false
  | .infinite _, .infinite _ => infinity sign
  | .infinite _, .finite _ m _ => if m = 0 then notANumber false else infinity sign
  | .finite _ m _, .infinite _ => if m = 0 then notANumber false else infinity sign
  | .finite _ m q, .finite _ n r => ofMagnitude sign (nearestScaled (m * n) (q + r))

/-- The number is neither infinite nor undefined, and greater than zero. -/
def IsPositive (x : Binary64) : Prop :=
  match x.view with
  | .finite negative m _ => negative = false ∧ m ≠ 0
  | _ => False

instance (x : Binary64) : Decidable x.IsPositive := by
  unfold IsPositive
  cases x.view <;> infer_instance

/-- The nearest natural number, a half going up, within a bound; negative numbers give zero. -/
def roundToNat (bound : Nat) (x : Binary64) : Nat :=
  match x.view with
  | .nan _ => 0
  | .infinite negative => if negative then 0 else bound
  | .finite negative m q =>
    if negative then 0
    else if 0 ≤ q then min bound (m * 2 ^ q.toNat)
    else min bound (divHalfUp m (2 ^ (-q).toNat))

end Binary64

end Gunsmith
