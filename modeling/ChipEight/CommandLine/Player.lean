import ChipEight.CommandLine.Help
import ChipEight.Folder
import ChipEight.Settings

/-!
# The player's command line

The player runs a program. Its options choose the settings of the run. They are looked at in the
order palette, fonts, dialect, switches, so the first of these that is wrong decides which failure
is reported, wherever it stands on the command line.
-/

namespace ChipEight.CommandLine

/-- The options of the player. -/
inductive PlayerKey
  | clock
  | debug
  | verbose
  | fonts
  | paletteFile
  | palette
  | switches
  | dialect
  deriving DecidableEq, Repr

/-- The player. -/
def player : Command PlayerKey where
  name := "chip8vm"
  about := "CHIP-8 / SUPER-CHIP interpreter for the terminal"
  operand := "ROM"
  operandAbout := "ROM to run"
  choices :=
    [{ key := .clock, letter := 'c', word := "clockspeed", kind := .count
       about := "instructions (and timer ticks) per second", preset := some "1000" },
     { key := .debug, letter := 'd', word := "debug", about := "start in the debugger" },
     { key := .verbose, letter := 'v', word := "verbose"
       about := "log every instruction as it executes" },
     { key := .fonts, letter := 'f', word := "fonts", kind := .text
       about := "small and big font names, as small,big" },
     { key := .paletteFile, letter := 'p', word := "palette-file", kind := .path
       about := "palette file: background then foreground, one hex colour per line" },
     { key := .palette, letter := 'P', word := "palette", kind := .text
       about := "palette as background,foreground" },
     { key := .switches, letter := 'q', word := "quirks", kind := .text
       about := "letters of b (logic clears VF), d (clip sprites), j (jump by digit), " ++
         "l (move I), s (shift in place)"
       preset := some "" },
     { key := .dialect, letter := 'm', word := "mode", kind := .text
       about := "chip8, schip or xochip", preset := some "schip" }]

/-- Why the player does not get to its program. -/
inductive Rejection
  /-- The command line is refused. -/
  | refused (refusal : Refusal)
  /-- A setting is wrong. -/
  | failed (failure : Failure)
  deriving DecidableEq, Repr

namespace Taken

/-- The palette of a run: the one on the command line, else the one of the file. -/
def chosenPalette (taken : Taken PlayerKey) (folder : Folder) : Except Failure Palette :=
  match taken.value? .palette, taken.value? .paletteFile with
  | some text, _ => Palette.parse text
  | none, some path => do Palette.ofFile (← folder.readSource (String.ofList path))
  | none, none => .ok {}

/-- The settings of a run. -/
def settings (taken : Taken PlayerKey) (folder : Folder) : Except Failure Settings := do
  let palette ← taken.chosenPalette folder
  let fonts ← match taken.value? .fonts with
    | some text => Fonts.parse text
    | none => .ok {}
  let dialect ← match taken.value? .dialect with
    | some text => Dialect.parse text
    | none => .ok .superChip
  let switches ← match taken.value? .switches with
    | some text => Switches.parse text
    | none => .ok {}
  return {
    clock := ((taken.value? .clock).bind count?).getD defaultClock
    debug := taken.has .debug, verbose := taken.has .verbose
    dialect, switches, palette, fonts }

end Taken

/-- A machine that is set up, and what came of loading its program. -/
structure Setup where
  settings : Settings
  path : String
  machine : Machine
  /-- The length of the program, or why it is not in memory. -/
  loaded : Except Failure Nat

/-- Loads the program at a path into a machine. A machine whose program cannot be loaded stays as
it is. -/
def loadFrom (m : Machine) (folder : Folder) (path : String) : Except Failure (Nat × Machine) := do
  let program ← folder.readFile path
  return (program.length, ← m.loadProgram program)

/-- Sets up a machine for a command line. -/
def setUp (seed : UInt64) (folder : Folder) (args : List String) : Except Rejection Setup := do
  let reading ← (player.read args).mapError .refused
  let settings ← (reading.settings folder).mapError .failed
  let m := Machine.ofSettings seed settings
  match loadFrom m folder reading.path with
  | .ok (length, machine) =>
    return { settings, path := reading.path, machine, loaded := .ok length }
  | .error failure =>
    return { settings, path := reading.path, machine := m, loaded := .error failure }

end ChipEight.CommandLine
