import ChipEight.Machine.State

/-!
# Settings

Everything that is chosen before a run: the machine's own settings and those of the loop around
it.
-/

namespace ChipEight

/-- Instructions per second, and so timer ticks per second, unless chosen otherwise. -/
def defaultClock : Nat := 1000

/-- The settings of a run. -/
structure Settings where
  /-- Instructions per second. -/
  clock : Nat := defaultClock
  /-- Start in the debugger. -/
  debug : Bool := false
  /-- Tell of every instruction. -/
  verbose : Bool := false
  dialect : Dialect := .superChip
  switches : Switches := {}
  palette : Palette := {}
  fonts : Fonts := {}
  deriving DecidableEq, Repr, Inhabited

/-- A new machine with given settings. Choosing its colours does not ask for the screen to be
drawn. -/
def Machine.ofSettings (seed : UInt64) (s : Settings) : Machine :=
  let m := Machine.ofSeed seed
  { m with
    ram := m.ram.withFonts s.fonts
    dialect := s.dialect, switches := s.switches, fonts := s.fonts, palette := s.palette }

end ChipEight
