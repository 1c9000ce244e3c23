/-
  The two stats of a build and what "better" means for each.

  A build has a recoil and an ergonomics.  Recoil should be low, ergonomics high.  An
  evaluation focuses on one of them and uses the other only to decide ties, so totals
  are compared by the focused stat first and by the secondary stat second
  (`Totals.Better`).

  Values are whole numbers of any size.  Arithmetic in 64 bits, with a sign, gives the same ones as
  long as every modifier, and every sum and bound that is computed on the way, fits 64 bits; of
  sums that overflow nothing is said.  Where a value is read from a text, that it fits is checked
  (`Json.int64?`), and what is proved of writing and reading back asks for it (`Totals.Fit`).
-/
import Gunsmith.Text.Blank
import Gunsmith.Text.Letters

namespace Gunsmith

/-- A stat that an evaluation can focus on. -/
inductive Stat where
  /-- Felt recoil: the smaller the better. -/
  | recoil
  /-- Handling: the larger the better. -/
  | ergonomics
deriving DecidableEq, Inhabited

namespace Stat

/-- Both stats. -/
def all : List Stat := [.recoil, .ergonomics]

/-- The keyword of a stat. -/
def name : Stat → String
  | .recoil => "recoil"
  | .ergonomics => "ergonomics"

/-- The stat that decides ties when this one is in focus. -/
def secondary : Stat → Stat
  | .recoil => .ergonomics
  | .ergonomics => .recoil

/-- A value `a` of the stat is strictly better than a value `b`. -/
def Better (stat : Stat) (a b : Int) : Prop :=
  match stat with
  | .recoil => a < b
  | .ergonomics => b < a

instance (stat : Stat) (a b : Int) : Decidable (stat.Better a b) :=
  match stat with
  | .recoil => inferInstanceAs (Decidable (a < b))
  | .ergonomics => inferInstanceAs (Decidable (b < a))

/-- Reads a stat as a person types it: margins and letter case do not matter, and `ergo` is
short for `ergonomics`. -/
def parse (text : String) : Except String Stat :=
  let word := Text.lower (Text.trim text)
  if word = "recoil" then .ok .recoil
  else if word = "ergonomics" ∨ word = "ergo" then .ok .ergonomics
  else .error s!"未知的求解属性: {word}"

@[simp]
theorem secondary_secondary (stat : Stat) : stat.secondary.secondary = stat := by
  cases stat <;> rfl

theorem better_irrefl (stat : Stat) (a : Int) : ¬ stat.Better a a := by
  cases stat <;> simp [Better]

theorem Better.trans {stat : Stat} {a b c : Int} (h₁ : stat.Better a b) (h₂ : stat.Better b c) :
    stat.Better a c := by
  cases stat <;> simp only [Better] at * <;> omega

end Stat

/-- A value of each stat: the modifiers of an item, or the sums over a build. -/
structure Totals where
  recoil : Int
  ergonomics : Int
deriving DecidableEq, Inhabited

namespace Totals

/-- No modification at all, as of a slot left empty. -/
instance : Zero Totals := ⟨⟨0, 0⟩⟩

instance : Add Totals := ⟨fun a b => ⟨a.recoil + b.recoil, a.ergonomics + b.ergonomics⟩⟩

/-- The value of one stat. -/
def pick (t : Totals) : Stat → Int
  | .recoil => t.recoil
  | .ergonomics => t.ergonomics

/-- Totals `a` are strictly better than `b` with `stat` in focus: better in it, or equal in it and
better in the secondary stat. -/
def Better (stat : Stat) (a b : Totals) : Prop :=
  stat.Better (a.pick stat) (b.pick stat) ∨
    (a.pick stat = b.pick stat ∧
      stat.secondary.Better (a.pick stat.secondary) (b.pick stat.secondary))

instance (stat : Stat) (a b : Totals) : Decidable (Better stat a b) :=
  inferInstanceAs (Decidable (_ ∨ _))

@[simp]
theorem recoil_add (a b : Totals) : (a + b).recoil = a.recoil + b.recoil := rfl

@[simp]
theorem ergonomics_add (a b : Totals) : (a + b).ergonomics = a.ergonomics + b.ergonomics := rfl

@[simp]
theorem pick_add (a b : Totals) (stat : Stat) : (a + b).pick stat = a.pick stat + b.pick stat := by
  cases stat <;> rfl

@[simp]
theorem recoil_zero : (0 : Totals).recoil = 0 := rfl

@[simp]
theorem ergonomics_zero : (0 : Totals).ergonomics = 0 := rfl

end Totals

end Gunsmith
