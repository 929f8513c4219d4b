import ChipEight.Failure
import ChipEight.Text.Pieces

/-!
# Palettes

Two colours of 24 bits, written as `background,foreground` or as a file with one hexadecimal
colour to a line.
-/

namespace ChipEight

open Text

/-- The colours of dark and lit pixels, as red, green and blue in the three low bytes. -/
structure Palette where
  background : UInt32 := 0x000000
  foreground : UInt32 := 0xFFFFFF
  deriving DecidableEq, Repr, Inhabited

/-- The largest colour. -/
def maxColour : Nat := 0xFFFFFF

/-- The red, green and blue parts of a colour. -/
def rgb (colour : UInt32) : Nat × Nat × Nat :=
  let n := colour.toNat
  (n / 65536 % 256, n / 256 % 256, n % 256)

namespace Palette

/-- A colour that could be read, or the flaw that quotes the text it was read from. -/
def colourOr (text : List Char) (value : Option Nat) : Except Failure UInt32 :=
  match value with
  | some n => .ok (UInt32.ofNat n)
  | none => .error (.badPalette (.badColour (String.ofList (trim text))))

/-- Reads one colour of a pair, in any notation for numbers. -/
def colour (s : List Char) : Except Failure UInt32 := colourOr s (numberUpTo? maxColour s)

/-- Reads `background,foreground`; the first comma separates them. -/
def parse (s : List Char) : Except Failure Palette :=
  match cutAt ',' s with
  | none => .error (.badPalette (.notAPair (String.ofList s)))
  | some (background, foreground) => do
    let background ← colour background
    let foreground ← colour foreground
    return { background, foreground }

/-- Reads one line of a palette file: hexadecimal digits, with or without a mark. -/
def fileColour (line : List Char) : Except Failure UInt32 :=
  let t := trim line
  let digits := (afterHexMark? t).getD t
  colourOr line ((unsigned? 16 digits).filter (· ≤ maxColour))

/-- Reads a palette file: its first two lines that are not blank. -/
def ofFile (text : List Char) : Except Failure Palette :=
  match (lines text).filter fun line => !(trim line).isEmpty with
  | [] => .error (.badPalette .tooFewColours)
  | [only] => do
    let _ ← fileColour only
    throw (.badPalette .tooFewColours)
  | first :: second :: _ => do
    let background ← fileColour first
    let foreground ← fileColour second
    return { background, foreground }

end Palette
end ChipEight
