import ChipEight.Dialect
import ChipEight.Instruction.Word
import ChipEight.Machine.AddressSet
import ChipEight.Machine.Noise
import ChipEight.Machine.Ram
import ChipEight.Machine.Raster
import ChipEight.Palette
import ChipEight.Switches

/-!
# The machine

Everything that a running program can see, with the settings that decide how it is executed. The
types keep what every machine keeps: at most sixteen return addresses, sixteen registers and keys,
4096 bytes of memory.
-/

namespace ChipEight

/-! ## The state -/

/-- A machine. -/
structure Machine where
  ram : Ram := Ram.ofFonts {}
  /-- The registers V0 to VF. -/
  v : Vector UInt8 16 := Vector.replicate 16 0
  /-- The flag registers R0 to R7. -/
  flags : Vector UInt8 8 := Vector.replicate 8 0
  /-- The index register I. -/
  index : UInt16 := 0
  /-- The program counter. -/
  pc : UInt16 := UInt16.ofNat programStart
  /-- How many return addresses are on the stack. -/
  depth : Fin 17 := 0
  stack : Vector UInt16 16 := Vector.replicate 16 0
  /-- The delay timer. -/
  delay : UInt8 := 0
  /-- The sound timer. -/
  sound : UInt8 := 0
  /-- Which keys are down. -/
  keys : Vector Bool 16 := Vector.replicate 16 false
  /-- The register that waits for the next key. -/
  awaiting : Option (Fin 16) := none
  screen : Raster := .blank
  running : Bool := true
  /-- Whether the screen may look different from what was last drawn. -/
  redraw : Bool := false
  switches : Switches := {}
  dialect : Dialect := .superChip
  fonts : Fonts := {}
  palette : Palette := {}
  breakpoints : AddressSet := .empty
  noise : Noise := {}
  deriving Inhabited

/-- Where a machine stands with whoever runs it. -/
inductive RunState
  | running
  /-- An instruction waits for a key. -/
  | waiting
  | halted
  deriving DecidableEq, Repr

namespace Machine

/-- A new machine with a source of random bytes. -/
def ofNoise (noise : Noise) : Machine := { noise }

/-- A new machine whose random bytes come from a seed. -/
def ofSeed (seed : UInt64) : Machine := ofNoise (.ofSeed seed)

/-- Where the machine stands. -/
def runState (m : Machine) : RunState :=
  if !m.running then .halted else if m.awaiting.isSome then .waiting else .running

/-- Stops the machine. -/
def halt (m : Machine) : Machine := { m with running := false }

/-! ## Registers and stack -/

/-- The register with a number; numbers wrap. -/
def registerNumber (x : Nat) : Fin 16 := lastDigit x

/-- The register VF, which instructions use for their flag. -/
def flagRegister : Fin 16 := registerNumber 0xF

/-- The flag register with a number; numbers wrap. -/
def flagNumber (x : Nat) : Fin 8 := ⟨x % 8, Nat.mod_lt _ (by decide)⟩

/-- What a register holds. -/
def register (m : Machine) (x : Fin 16) : UInt8 := m.v[x]

/-- What a flag register holds. -/
def flag (m : Machine) (x : Fin 8) : UInt8 := m.flags[x]

/-- Sets a register. -/
def setRegister (m : Machine) (x : Fin 16) (b : UInt8) : Machine := { m with v := m.v.set x b }

/-- Sets a flag register. -/
def setFlag (m : Machine) (x : Fin 8) (b : UInt8) : Machine := { m with flags := m.flags.set x b }

/-- Sets the number of return addresses; the stack holds sixteen at most. -/
def setDepth (m : Machine) (n : Nat) : Machine :=
  { m with depth := ⟨min n 16, by omega⟩ }

/-- The return addresses, oldest first. -/
def returns (m : Machine) : List UInt16 := m.stack.toList.take m.depth.val

/-! ## Keys -/

/-- The key with a number; numbers wrap. -/
def keyNumber (k : UInt8) : Fin 16 := ⟨k.toNat % 16, Nat.mod_lt _ (by decide)⟩

/-- Records that a key went down or up. -/
def setKey (m : Machine) (k : UInt8) (down : Bool) : Machine :=
  { m with keys := m.keys.set (keyNumber k) down }

/-- Whether a key is down. -/
def key (m : Machine) (k : UInt8) : Bool := m.keys[keyNumber k]

/-- The lowest key that is down. -/
def pressedKey (m : Machine) : Option (Fin 16) := (List.finRange 16).find? fun k => m.keys[k]

/-- Hands a key to the instruction that waits for one: the key goes to its register and the
program continues behind it. The first part of the result tells whether an instruction waited. -/
def deliverKey (m : Machine) (k : UInt8) : Bool × Machine :=
  match m.awaiting with
  | none => (false, m)
  | some x =>
    (true, { m with
      awaiting := none
      v := m.v.set x (UInt8.ofNat (keyNumber k).val)
      pc := m.pc + 2 })

/-! ## Timers and screen -/

/-- One tick of both timers; they stop at zero. -/
def tickTimers (m : Machine) : Machine :=
  { m with
    delay := UInt8.ofNat (m.delay.toNat - 1)
    sound := UInt8.ofNat (m.sound.toNat - 1) }

/-- Asks for the screen to be drawn. -/
def requestRedraw (m : Machine) : Machine := { m with redraw := true }

/-- Tells whether the screen must be drawn, and notes that it was. -/
def takeRedraw (m : Machine) : Bool × Machine := (m.redraw, { m with redraw := false })

/-! ## Memory -/

/-- The word under the program counter. -/
def currentWord (m : Machine) : UInt16 := m.ram.word m.pc

/-- Loads a program. Nothing changes if it does not fit. -/
def loadProgram (m : Machine) (program : List UInt8) : Except Failure Machine :=
  match m.ram.load program with
  | .ok ram => .ok { m with ram }
  | .error misfit => .error (.misfit misfit)

/-! ## Settings -/

/-- Chooses other fonts, and writes their glyphs to memory. -/
def setFonts (m : Machine) (fonts : Fonts) : Machine :=
  { m with ram := m.ram.withFonts fonts, fonts }

/-- Chooses other colours; the screen must be drawn in them. -/
def setPalette (m : Machine) (palette : Palette) : Machine := { m with palette, redraw := true }

/-- Adds a breakpoint. -/
def addBreakpoint (m : Machine) (a : UInt16) : Machine :=
  { m with breakpoints := m.breakpoints.insert a }

/-- Removes a breakpoint. -/
def removeBreakpoint (m : Machine) (a : UInt16) : Machine :=
  { m with breakpoints := m.breakpoints.erase a }

end Machine
end ChipEight
