import ChipEight.Notice

/-!
# Keys

What happens on an input device between two looks at it, and a keyboard that stands in for the
hexadecimal keypad. A keyboard tells when a key goes down, and again while it is held, but not when
it goes up; so a key counts as released when nothing was heard of it for some time.

    1 2 3 4      1 2 3 C
    q w e r  as  4 5 6 D
    a s d f      7 8 9 E
    z x c v      A 0 B F
-/

namespace ChipEight

/-! ## Events -/

/-- A key of the keypad went down or up. -/
structure KeyChange where
  key : UInt8
  down : Bool
  deriving DecidableEq, Repr

/-- What happened on an input device since the last look. -/
structure Events where
  changes : List KeyChange := []
  /-- The user wants to quit. -/
  quit : Bool := false
  /-- The user wants the debugger. -/
  enterDebug : Bool := false
  /-- The user wants to be rid of the debugger. -/
  exitDebug : Bool := false
  deriving DecidableEq, Repr, Inhabited

namespace Events

/-- One key went down. -/
def press (key : UInt8) : Events := { changes := [⟨key, true⟩] }

/-- One key went up. -/
def release (key : UInt8) : Events := { changes := [⟨key, false⟩] }

/-- The first key that went down. -/
def firstPress (e : Events) : Option UInt8 := (e.changes.find? (·.down)).map (·.key)

end Events

/-! ## The keyboard -/

/-- A key of the keyboard, as the terminal reports it. -/
inductive KeyCode
  | char (c : Char)
  | escape
  | function (n : Nat)
  /-- Any other key. -/
  | other
  deriving DecidableEq, Repr

/-- A report of the terminal. -/
structure KeyReport where
  code : KeyCode
  control : Bool := false
  deriving DecidableEq, Repr

/-- A keyboard: for each key of the keypad the time of its last report while it counts as held. -/
structure Keyboard where
  /-- How long a key counts as held after a report. -/
  hold : Nat := 200
  held : Vector (Option Nat) 16 := Vector.replicate 16 none
  deriving DecidableEq

namespace Keyboard

/-- The keys of the keyboard in the order of the keypad keys that they stand for. -/
def layout : List Char :=
  ['x', '1', '2', '3', 'q', 'w', 'e', 'a', 's', 'd', 'z', 'c', '4', 'r', 'f', 'v']

/-- The keypad key of a character; capitals count as small letters. -/
def keyOf (c : Char) : Option (Fin 16) :=
  (List.finRange 16).find? fun k => layout[k.val]? == some c.toLower

/-- The keypad keys that count as held. -/
def heldKeys (k : Keyboard) : List (Fin 16) :=
  (List.finRange 16).filter fun key => (k.held.get key).isSome

/-- Hears that a keypad key is held at a time. Only the first report is a change. -/
def refresh (k : Keyboard) (now : Nat) (key : Fin 16) : Keyboard × Events :=
  ({ k with held := k.held.setIfInBounds key (some now) },
    if (k.held.get key).isSome then {} else Events.press (UInt8.ofNat key.val))

/-- Hears a report of the terminal at a time. -/
def report (k : Keyboard) (now : Nat) (r : KeyReport) : Keyboard × Events × List Notice :=
  match r.code with
  | .escape => (k, { quit := true }, [])
  | .function 1 => (k, { enterDebug := true }, [])
  | .function 2 => (k, { exitDebug := true }, [])
  | .function _ | .other => (k, {}, [])
  | .char c =>
    if c = 'c' ∧ r.control then (k, { quit := true }, [])
    else
      match keyOf c with
      | some key =>
        let (k, events) := k.refresh now key
        (k, events, [])
      | none => (k, {}, [.unmappedKey c])

/-- Whether a report is too old at a time. A report from the future is not. -/
def overdue (k : Keyboard) (now : Nat) (since : Nat) : Bool := k.hold ≤ now - since

/-- Releases the keys whose last report is too old at a time. -/
def expire (k : Keyboard) (now : Nat) : Keyboard × Events :=
  let gone := (List.finRange 16).filter fun key => (k.held.get key).any (k.overdue now)
  ({ k with held := k.held.map fun since => since.filter fun t => !k.overdue now t },
    { changes := gone.map fun key => ⟨UInt8.ofNat key.val, false⟩ })

end Keyboard
end ChipEight
