/-
  Ranges of reachable totals.

  The bounds of a part of the tree enclose the sums of both stats over every way to
  fill it, conflicts left aside.  They are what decides which candidate may be dropped
  in favour of another (`Bounds.Outranks`).
-/
import Gunsmith.Stat

namespace Gunsmith

/-- The smallest and largest reachable value of each stat. -/
structure Bounds where
  low : Totals
  high : Totals
deriving DecidableEq, Inhabited

namespace Bounds

/-- The range that holds one value of each stat. -/
def point (t : Totals) : Bounds := ⟨t, t⟩

/-- Ranges of sums: both ends add up. -/
instance : Add Bounds := ⟨fun a b => ⟨a.low + b.low, a.high + b.high⟩⟩

/-- The smallest range that holds both. -/
instance : Union Bounds :=
  ⟨fun a b =>
    ⟨⟨min a.low.recoil b.low.recoil, min a.low.ergonomics b.low.ergonomics⟩,
      ⟨max a.high.recoil b.high.recoil, max a.high.ergonomics b.high.ergonomics⟩⟩⟩

/-- The best reachable value of a stat. -/
def best (b : Bounds) : Stat → Int
  | .recoil => b.low.recoil
  | .ergonomics => b.high.ergonomics

/-- The worst reachable value of a stat. -/
def worst (b : Bounds) : Stat → Int
  | .recoil => b.high.recoil
  | .ergonomics => b.low.ergonomics

/-- The best choice within `a` is at least as good as any choice within `b`: its best focused value
is better, or equal while even its worst secondary value beats the best of `b`.  When all of these
are equal, the one that comes first wins. -/
def Outranks (a b : Bounds) (stat : Stat) (first : Bool) : Prop :=
  stat.Better (a.best stat) (b.best stat) ∨
    (a.best stat = b.best stat ∧
      (stat.secondary.Better (a.worst stat.secondary) (b.best stat.secondary) ∨
        (a.worst stat.secondary = b.best stat.secondary ∧ first = true)))

instance (a b : Bounds) (stat : Stat) (first : Bool) : Decidable (a.Outranks b stat first) :=
  inferInstanceAs (Decidable (_ ∨ _))

end Bounds

end Gunsmith
