/-!
# Letter case

Names are compared without regard to the case of their ASCII letters. Letters outside ASCII are
never folded.
-/

namespace ChipEight.Text

/-- A text with its ASCII capitals made small. -/
def lower (s : List Char) : List Char := s.map Char.toLower

/-- Whether two texts differ in the case of ASCII letters at most. -/
def sameLetters (a b : List Char) : Bool := lower a == lower b

theorem sameLetters_refl (s : List Char) : sameLetters s s = true := by
  simp [sameLetters]

theorem sameLetters_iff {a b : List Char} : sameLetters a b = true ↔ lower a = lower b := by
  simp [sameLetters]

/-- Whether a character is an ASCII letter. -/
def isLetter (c : Char) : Bool := c.isAlpha

/-- Whether a character may stand inside a name: an ASCII letter, a decimal digit or `_`. -/
def isNameChar (c : Char) : Bool := c.isAlphanum || c == '_'

/-- A name is an ASCII letter or `_`, followed by letters, digits and `_`. -/
def isName : List Char → Bool
  | [] => false
  | c :: rest => (isLetter c || c == '_') && rest.all isNameChar

end ChipEight.Text
