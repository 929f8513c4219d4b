import ChipEight.Text.Hidden
import ChipEight.Text.Numeral

/-!
# Quoted characters

A character between apostrophes. A character that has no picture, or that would end the quotation,
is written as an escape.
-/

namespace ChipEight.Text

/-- The escape of a character by its number. -/
def numberEscape (c : Char) : List Char :=
  ['\\', 'u', '\x7b'] ++ hex 1 c.toNat ++ ['\x7d']

/-- A character as it stands between apostrophes. -/
def escaped (c : Char) : List Char :=
  if c = '\x00' then ['\\', '0']
  else if c = '\t' then ['\\', 't']
  else if c = '\r' then ['\\', 'r']
  else if c = '\n' then ['\\', 'n']
  else if c = '\\' then ['\\', '\\']
  else if c = '\'' then ['\\', '\'']
  else if isHidden c then numberEscape c
  else [c]

/-- A character in quotation marks. -/
def quoted (c : Char) : List Char := '\'' :: escaped c ++ ['\'']

end ChipEight.Text
