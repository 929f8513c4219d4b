import ChipEight.Failure
import ChipEight.Switches
import ChipEight.Dialect
import ChipEight.Text.Quoted

/-!
# Notices

What the library tells whoever runs it, apart from results: a record of what happened, its level
of importance, and its wording.
-/

namespace ChipEight

open Text

/-- How much a notice matters. -/
inductive Level
  | info
  | warn
  | error
  deriving DecidableEq, Repr

/-- The name of a level. -/
def Level.name : Level → String
  | info => "INFO"
  | warn => "WARN"
  | error => "ERROR"

/-- A record of what happened. -/
inductive Notice
  /-- A program was put into memory. -/
  | programLoaded (size : Nat)
  /-- A program was written to a file. -/
  | programWritten (size : Nat) (path : String)
  /-- An instruction was assembled. -/
  | encoded (address : Nat) (word : UInt16) (text : String)
  /-- An instruction is about to be executed. -/
  | executing (pc : UInt16) (text : String)
  /-- A run starts. -/
  | running (clock : Nat) (dialect : Dialect) (switches : Switches)
  /-- A run ended. -/
  | halted (pc : UInt16)
  /-- The input asked to quit. -/
  | quitRequested
  /-- The debugger asked to quit. -/
  | quitFromDebugger
  /-- The input asked for a debugger and there is none. -/
  | noDebugger
  /-- An instruction failed. -/
  | faulted (cause : Fault)
  /-- The beeper failed. -/
  | beeperFailed (text : String)
  /-- A dump was written to a file. -/
  | stateSaved (path : String)
  /-- A dump was read from a file. -/
  | stateLoaded (path : String)
  /-- The debugger could not read its commands. -/
  | debuggerFailed (cause : IoError)
  /-- A key of the keyboard has no place on the keypad. -/
  | unmappedKey (key : Char)
  deriving DecidableEq, Repr

namespace Notice

/-- The level of a notice. -/
def level : Notice → Level
  | noDebugger | beeperFailed _ | debuggerFailed _ | unmappedKey _ => .warn
  | faulted _ => .error
  | _ => .info

/-- The wording of a notice. -/
def message : Notice → String
  | programLoaded size => s!"loaded {size} byte program at 200"
  | programWritten size path => s!"wrote {size} bytes to {path}"
  | encoded address word text => s!"{hexText 3 address}: {hexText 4 word.toNat}\t{text}"
  | executing pc text => s!"{hexText 3 pc.toNat}: {text}"
  | running clock dialect switches =>
    s!"running at {clock} Hz, mode {dialect.name}, quirks '{String.ofList switches.letters}'"
  | halted pc => s!"halted at {hexText 3 pc.toNat}"
  | quitRequested => "quit requested"
  | quitFromDebugger => "quit from debugger"
  | noDebugger => "no debugger attached"
  | faulted cause => cause.message
  | beeperFailed text => s!"beeper failed: {text}"
  | stateSaved path => s!"saved state to {path}"
  | stateLoaded path => s!"loaded state from {path}"
  | debuggerFailed cause => s!"debugger i/o failed, quitting: {cause.message}"
  | unmappedKey key => s!"can't map {String.ofList (quoted key)} to a COSMAC key"

end Notice
end ChipEight
