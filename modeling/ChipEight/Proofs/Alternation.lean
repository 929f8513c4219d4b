import Mathlib.Data.List.Chain

/-!
# Alternating switchings

The beeper and the keys of a keypad are on or off, and something is told of them exactly when that
changes. Then what is told alternates, and what was told last is how the thing stands.
-/

namespace ChipEight

/-- Every switching changes something that was on or off at first. -/
def Alternates (was : Bool) (switchings : List Bool) : Prop :=
  (was :: switchings).IsChain (· ≠ ·)

instance (was : Bool) (switchings : List Bool) : Decidable (Alternates was switchings) :=
  inferInstanceAs (Decidable ((was :: switchings).IsChain (· ≠ ·)))

/-- The switching that leads from one state to another, if they differ. -/
def change (was now : Bool) : List Bool := if was = now then [] else [now]

theorem change_self (was : Bool) : change was was = [] := if_pos rfl

theorem alternates_nil (was : Bool) : Alternates was [] := .singleton was

theorem Alternates.change_append {now : Bool} {later : List Bool} (h : Alternates now later)
    (was : Bool) : Alternates was (change was now ++ later) := by
  unfold change
  split
  · rw [‹was = now›]
    exact h
  · exact .cons_cons ‹¬was = now› h

/-- Something stands as it was switched last. -/
theorem getLast?_change (was now : Bool) : ((change was now).getLast?).getD was = now := by
  unfold change
  split
  · exact ‹was = now›
  · rfl

/-- Something that was off is switched on first. -/
example : Alternates false [true, false, true] := by decide

end ChipEight
