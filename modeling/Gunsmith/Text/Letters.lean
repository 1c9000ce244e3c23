/-
  Letter case, for keywords.

  Keywords are compared without regard to case.  Only the 26 Latin letters have a
  case here: every other character is left as it is, so `É` and `é` stay apart.
-/

namespace Gunsmith.Text

/-- The text with the letters `A` to `Z` in lower case and all else untouched. -/
def lower (s : String) : String :=
  String.ofList (s.toList.map Char.toLower)

/-- Equality up to the case of the letters `A` to `Z`. -/
def sameLetters (s t : String) : Bool :=
  s.toList.map Char.toLower == t.toList.map Char.toLower

@[simp]
theorem sameLetters_self (s : String) : sameLetters s s = true := by
  simp [sameLetters]

theorem sameLetters_comm (s t : String) : sameLetters s t = sameLetters t s := by
  rw [sameLetters, sameLetters, Bool.eq_iff_iff, beq_iff_eq, beq_iff_eq]
  exact eq_comm

end Gunsmith.Text
