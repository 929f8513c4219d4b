import ChipEight.Failure

/-!
# Switches

Interpreters of the same dialect disagree on five points. Each point has a switch, named by a
letter; with all switches off the machine behaves like the first interpreter, on the COSMAC VIP.
-/

namespace ChipEight

open Text

/-- The five points of disagreement. -/
structure Switches where
  /-- `b`: the logic instructions clear VF. -/
  clearFlag : Bool := false
  /-- `d`: sprites are clipped at the edge of the screen and do not wrap. -/
  clipSprites : Bool := false
  /-- `j`: the jump with offset adds the register named by its first digit, not V0. -/
  jumpByDigit : Bool := false
  /-- `l`: storing and loading registers moves the index register. -/
  moveIndex : Bool := false
  /-- `s`: shifts read the register that they write. -/
  shiftInPlace : Bool := false
  deriving DecidableEq, Repr, Inhabited

namespace Switches

/-! ## Letters -/

/-- Flips the switch of a letter; `none` for a letter without a switch. -/
def flip (q : Switches) : Char → Option Switches
  | 'b' => some { q with clearFlag := !q.clearFlag }
  | 'd' => some { q with clipSprites := !q.clipSprites }
  | 'j' => some { q with jumpByDigit := !q.jumpByDigit }
  | 'l' => some { q with moveIndex := !q.moveIndex }
  | 's' => some { q with shiftInPlace := !q.shiftInPlace }
  | _ => none

/-- Flips the switches of the letters of a text one after another. -/
def flipAll (q : Switches) : List Char → Except Failure Switches
  | [] => .ok q
  | c :: rest =>
    match q.flip c with
    | some r => flipAll r rest
    | none => .error (.unknownSwitch c)

/-- Reads switch letters between optional blanks; a letter given twice is off again. -/
def parse (s : List Char) : Except Failure Switches := flipAll {} (trim s)

/-- The letters of the switches that are on, in alphabetical order. -/
def letters (q : Switches) : List Char :=
  (if q.clearFlag then ['b'] else []) ++ (if q.clipSprites then ['d'] else []) ++
  (if q.jumpByDigit then ['j'] else []) ++ (if q.moveIndex then ['l'] else []) ++
  (if q.shiftInPlace then ['s'] else [])

/-- Reading the letters of some switches gives these switches. -/
theorem parse_letters (q : Switches) : parse q.letters = .ok q := by
  rcases q with ⟨b, d, j, l, s⟩
  cases b <;> cases d <;> cases j <;> cases l <;> cases s <;> rfl

/-! ## One byte -/

/-- The switches as the five low bits of a number, in alphabetical order of their letters. -/
def bits (q : Switches) : Nat :=
  q.clearFlag.toNat + 2 * q.clipSprites.toNat + 4 * q.jumpByDigit.toNat +
  8 * q.moveIndex.toNat + 16 * q.shiftInPlace.toNat

/-- The switches that the five low bits of a number stand for. -/
def ofBits (n : Nat) : Switches :=
  ⟨n.testBit 0, n.testBit 1, n.testBit 2, n.testBit 3, n.testBit 4⟩

theorem ofBits_bits (q : Switches) : ofBits q.bits = q := by
  rcases q with ⟨b, d, j, l, s⟩
  cases b <;> cases d <;> cases j <;> cases l <;> cases s <;> rfl

theorem bits_lt (q : Switches) : q.bits < 32 := by
  rcases q with ⟨b, d, j, l, s⟩
  cases b <;> cases d <;> cases j <;> cases l <;> cases s <;> decide

end Switches
end ChipEight
