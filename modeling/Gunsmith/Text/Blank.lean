/-
  Blank characters and the trimming of blank margins.

  Names and settings typed by people carry stray blanks.  Two decisions of this
  library hang on them: a name that is all blank counts as missing, and a keyword
  is read without its margins.  "Blank" is the Unicode property White_Space, 25
  code points, of which the ASCII ones are only six.
-/

namespace Gunsmith.Text

/-- The 25 code points with the Unicode property White_Space. -/
def isBlank (c : Char) : Bool :=
  (0x9 ≤ c.toNat && c.toNat ≤ 0xD) || c.toNat == 0x20 || c.toNat == 0x85 || c.toNat == 0xA0 ||
    c.toNat == 0x1680 || (0x2000 ≤ c.toNat && c.toNat ≤ 0x200A) || c.toNat == 0x2028 ||
    c.toNat == 0x2029 || c.toNat == 0x202F || c.toNat == 0x205F || c.toNat == 0x3000

/-- The text without its leading and trailing blanks. -/
def trim (s : String) : String :=
  String.ofList (((s.toList.dropWhile isBlank).reverse.dropWhile isBlank).reverse)

/-- Holds for the empty text and for a text of blanks only: such a name names nothing. -/
def isAllBlank (s : String) : Bool :=
  s.toList.all isBlank

/-- Every blank that the core library knows is a blank here. -/
theorem isBlank_of_isWhitespace (c : Char) (h : c.isWhitespace = true) : isBlank c = true := by
  simp only [Char.isWhitespace, Bool.or_eq_true, decide_eq_true_eq] at h
  rcases h with ((rfl | rfl) | rfl) | rfl <;> rfl

end Gunsmith.Text
