import ChipEight.Failure
import ChipEight.Text.Letters

/-!
# Dialects

CHIP-8 grew twice: SUPER-CHIP added a larger screen and flag registers, XO-CHIP added register
ranges and an upward scroll. Each dialect has all instructions of the one before.
-/

namespace ChipEight

open Text

/-- The three dialects, in the order in which they extend each other. -/
inductive Dialect
  | chip8
  | superChip
  | xoChip
  deriving DecidableEq, Repr, Inhabited

namespace Dialect

/-- The place of a dialect in the order of extension. -/
def rank : Dialect → Nat
  | chip8 => 0
  | superChip => 1
  | xoChip => 2

instance : LE Dialect := ⟨fun a b => a.rank ≤ b.rank⟩

instance (a b : Dialect) : Decidable (a ≤ b) := inferInstanceAs (Decidable (a.rank ≤ b.rank))

theorem le_refl (a : Dialect) : a ≤ a := Nat.le_refl a.rank

theorem le_trans {a b c : Dialect} (h₁ : a ≤ b) (h₂ : b ≤ c) : a ≤ c := Nat.le_trans h₁ h₂

theorem chip8_le (a : Dialect) : chip8 ≤ a := Nat.zero_le a.rank

/-- The dialect with a given place in the order. -/
def ofRank? : Nat → Option Dialect
  | 0 => some chip8
  | 1 => some superChip
  | 2 => some xoChip
  | _ => none

theorem ofRank?_rank (a : Dialect) : ofRank? a.rank = some a := by cases a <;> rfl

/-- The short name of a dialect. -/
def name : Dialect → String
  | chip8 => "chip8"
  | superChip => "schip"
  | xoChip => "xochip"

/-- Every accepted spelling with its dialect. -/
def spellings : List (String × Dialect) :=
  [("chip8", chip8), ("chip-8", chip8), ("schip", superChip), ("superchip", superChip),
   ("super-chip", superChip), ("xochip", xoChip), ("xo-chip", xoChip)]

/-- Reads the name of a dialect; blanks around it and the case of its letters do not matter. -/
def parse (s : List Char) : Except Failure Dialect :=
  let folded := String.ofList (lower (trim s))
  match spellings.lookup folded with
  | some dialect => .ok dialect
  | none => .error (.unknownDialect folded)

theorem parse_name (a : Dialect) : parse a.name.toList = .ok a := by cases a <;> rfl

end Dialect
end ChipEight
