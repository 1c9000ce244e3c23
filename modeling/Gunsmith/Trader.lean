/-
  Traders, their offers, and the levels that a buyer has with them.

  An attachment can be bought from a trader by a buyer whose level with that trader
  reaches the level that the offer asks for.  The levels of a buyer (`TraderLevels`) are
  a partial assignment: a trader without a level sells nothing.  Their written form
  lists the traders in a fixed order, so it does not depend on the order in which the
  levels were set.
-/
import Gunsmith.Text.Blank
import Gunsmith.Text.Letters

namespace Gunsmith

/-- The traders, in the order in which levels are listed. -/
inductive Trader where
  | prapor
  | therapist
  | fence
  | skier
  | peacekeeper
  | mechanic
  | ragman
  | jaeger
deriving DecidableEq, Inhabited

namespace Trader

/-- All traders, in order. -/
def all : List Trader :=
  [.prapor, .therapist, .fence, .skier, .peacekeeper, .mechanic, .ragman, .jaeger]

/-- The name of a trader. -/
def name : Trader → String
  | .prapor => "Prapor"
  | .therapist => "Therapist"
  | .fence => "Fence"
  | .skier => "Skier"
  | .peacekeeper => "Peacekeeper"
  | .mechanic => "Mechanic"
  | .ragman => "Ragman"
  | .jaeger => "Jaeger"

/-- Reads the name of a trader; margins and letter case do not matter. -/
def parse (text : String) : Except String Trader :=
  let word := Text.trim text
  match all.find? fun t => Text.sameLetters t.name word with
  | some t => .ok t
  | none => .error s!"未知的商人: {word}"

theorem mem_all (t : Trader) : t ∈ all := by
  cases t <;> decide

theorem name_injective {s t : Trader} (h : s.name = t.name) : s = t := by
  cases s <;> cases t <;> first | rfl | exact absurd h (by decide)

/-- The name of a trader reads as the trader. -/
theorem parse_name (t : Trader) : parse t.name = .ok t := by
  cases t <;> rfl

end Trader

/-- An offer of one trader for one item: the level it asks for, and the price. -/
structure Offer where
  trader : Trader
  minLevel : Nat
  price : Int
deriving DecidableEq, Inhabited

/-- The levels of a buyer: at most one for each trader. -/
structure TraderLevels where
  level : Trader → Option Nat

namespace TraderLevels

/-- No level with anyone. -/
def empty : TraderLevels := ⟨fun _ => none⟩

instance : Inhabited TraderLevels := ⟨empty⟩

/-- The same level with every trader. -/
def uniform (n : Nat) : TraderLevels := ⟨fun _ => some n⟩

/-- The levels with one of them set anew. -/
def set (levels : TraderLevels) (trader : Trader) (n : Nat) : TraderLevels :=
  ⟨fun t => if t = trader then some n else levels.level t⟩

/-- The levels there are, in the order of the traders. -/
def toList (levels : TraderLevels) : List (Trader × Nat) :=
  Trader.all.filterMap fun t => (levels.level t).map (t, ·)

/-- The lowest level a buyer can have. -/
def minLevel : Nat := 1

/-- The highest level a buyer can have. -/
def maxLevel : Nat := 5

/-- Accepts levels that all lie in range, and otherwise names the first that does not. -/
def validate (levels : TraderLevels) : Except String Unit :=
  match levels.toList.find? fun (_, n) => n < minLevel ∨ maxLevel < n with
  | none => .ok ()
  | some (t, n) => .error s!"商人等级越界: {t.name}={n} (允许范围 {minLevel}..={maxLevel})"

/-- Some offer is open to the buyer. -/
def CanPurchase (levels : TraderLevels) (offers : List Offer) : Prop :=
  ∃ o ∈ offers, ∃ n, levels.level o.trader = some n ∧ o.minLevel ≤ n

/-- One offer is open to the buyer. -/
def opens (levels : TraderLevels) (o : Offer) : Bool :=
  match levels.level o.trader with
  | some n => o.minLevel ≤ n
  | none => false

theorem opens_iff {levels : TraderLevels} {o : Offer} :
    levels.opens o = true ↔ ∃ n, levels.level o.trader = some n ∧ o.minLevel ≤ n := by
  unfold opens
  cases levels.level o.trader <;> simp

theorem canPurchase_iff {levels : TraderLevels} {offers : List Offer} :
    levels.CanPurchase offers ↔ offers.any levels.opens = true := by
  simp [CanPurchase, opens_iff]

instance (levels : TraderLevels) (offers : List Offer) :
    Decidable (levels.CanPurchase offers) :=
  decidable_of_iff _ canPurchase_iff.symm

/-- The written form: `Prapor=4,Mechanic=3`. -/
def key (levels : TraderLevels) : String :=
  ",".intercalate (levels.toList.map fun (t, n) => s!"{t.name}={n}")

@[simp]
theorem level_set (levels : TraderLevels) (s t : Trader) (n : Nat) :
    (levels.set s n).level t = if t = s then some n else levels.level t := rfl

theorem mem_toList {levels : TraderLevels} {t : Trader} {n : Nat} :
    (t, n) ∈ levels.toList ↔ levels.level t = some n := by
  simp only [toList, List.mem_filterMap, Option.map_eq_some_iff, Prod.mk.injEq]
  constructor
  · rintro ⟨u, -, m, h, rfl, rfl⟩
    exact h
  · exact fun h => ⟨t, Trader.mem_all t, n, h, rfl, rfl⟩

end TraderLevels

end Gunsmith
