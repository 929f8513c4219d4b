import ChipEight.Machine.State

/-!
# Dumps

A dump is the whole machine as bytes, field after field and high byte first, without a header. The
random bytes are not part of it. A dump of `n` breakpoints has `12387 + 2 * n` bytes.

Reading takes the fields off the front in the same order and stops at the first that is cut short
or out of range. Bytes after the last field are not looked at.

    0      memory (4096)          4176   running
    4096   flag registers (8)     4177   cells of the screen (8192)
    4104   registers (16)         12369  resolution
    4120   depth of the stack     12370  window's column and row (2)
    4121   timers (2)             12372  switches
    4123   stack (32)             12373  dialect
    4155   program counter (2)    12374  redraw
    4157   index register (2)     12375  fonts (2)
    4159   keys (16)              12377  colours (8)
    4175   awaiting register      12385  number of breakpoints (2), then each (2)
-/

namespace ChipEight

namespace Dump

/-! ## Writing fields -/

/-- A truth value as a byte. -/
def ofBool (b : Bool) : UInt8 := if b then 1 else 0

/-- A double word, high byte first. -/
def ofDouble (d : UInt32) : List UInt8 :=
  [UInt8.ofNat (d.toNat >>> 24), UInt8.ofNat (d.toNat >>> 16), UInt8.ofNat (d.toNat >>> 8),
   UInt8.ofNat d.toNat]

/-- The byte for "no register waits". -/
def noAwaiting : UInt8 := 0xFF

/-- The register that waits for a key, as a byte. -/
def ofAwaiting : Option (Fin 16) → UInt8
  | none => noAwaiting
  | some x => UInt8.ofNat x.val

/-- A resolution as a byte. -/
def ofResolution : Resolution → UInt8
  | .standard => 0
  | .extended => 1

/-! ## Reading fields -/

/-- A reader takes a value off the front of a row of bytes. -/
abbrev Reader := StateT (List UInt8) (Except Failure)

/-- Takes one byte. -/
def byte : Reader UInt8 := fun bytes =>
  match bytes with
  | [] => .error (.io .shortRead)
  | b :: rest => .ok (b, rest)

/-- Takes a word. -/
def word : Reader UInt16 := do
  let high ← byte
  let low ← byte
  return joinBytes high low

/-- Takes a double word. -/
def double : Reader UInt32 := do
  let high ← word
  let low ← word
  return UInt32.ofNat (65536 * high.toNat + low.toNat)

/-- Takes `n` bytes. -/
def block (n : Nat) : Reader (Vector UInt8 n) := fun bytes =>
  if h : n ≤ bytes.length then
    .ok (⟨(bytes.take n).toArray, by simp [h]⟩, bytes.drop n)
  else .error (.io .shortRead)

/-- Takes `n` truth values; any byte but zero is true. -/
def bools (n : Nat) : Reader (Vector Bool n) := do
  return (← block n).map (· != 0)

/-- Takes `n` words into a list. -/
def wordList (n : Nat) : Reader (List UInt16) := fun bytes =>
  if 2 * n ≤ bytes.length then .ok (words (bytes.take (2 * n)), bytes.drop (2 * n))
  else .error (.io .shortRead)

theorem high_lt {n : Nat} (i : Fin n) : 2 * i.val < 2 * n := by omega

theorem low_lt {n : Nat} (i : Fin n) : 2 * i.val + 1 < 2 * n := by omega

/-- Takes `n` words. -/
def wordBlock (n : Nat) : Reader (Vector UInt16 n) := do
  let bytes ← block (2 * n)
  return Vector.ofFn fun i =>
    joinBytes (bytes.get ⟨2 * i.val, high_lt i⟩) (bytes.get ⟨2 * i.val + 1, low_lt i⟩)

/-- The value that a field must have, or the flaw of the dump. -/
def require {α : Type} (flaw : DumpFlaw) : Option α → Reader α
  | some a => pure a
  | none => throw (.badDump flaw)

/-- The depth of a stack that a byte stands for. -/
def depth? (b : UInt8) : Option (Fin 17) :=
  if h : b.toNat < 17 then some ⟨b.toNat, h⟩ else none

/-- The waiting register that a byte stands for. -/
def awaiting? (b : UInt8) : Option (Option (Fin 16)) :=
  if b = noAwaiting then some none
  else if h : b.toNat < 16 then some (some ⟨b.toNat, h⟩)
  else none

/-- The resolution that a byte stands for. -/
def resolution? (b : UInt8) : Option Resolution :=
  if b = 0 then some .standard else if b = 1 then some .extended else none

/-! ## Groups of fields -/

/-- The cells of the screen and its window. -/
def ofRaster (s : Raster) : List UInt8 :=
  s.cells.toList.map ofBool ++
    [ofResolution s.resolution, UInt8.ofNat s.left.val, UInt8.ofNat s.top.val]

/-- Takes a screen. A window beyond the cells wraps. -/
def raster : Reader Raster := do
  let cells ← bools 8192
  let resolution ← require .displayMode (resolution? (← byte))
  let left ← byte
  let top ← byte
  return { Raster.blank with cells, resolution }.setOffset left.toNat top.toNat

/-- The number of breakpoints and their addresses. -/
def ofBreakpoints (s : AddressSet) : List UInt8 :=
  splitWord (UInt16.ofNat s.size) ++ s.toList.flatMap splitWord

/-- Takes breakpoints, in any order. -/
def breakpoints : Reader AddressSet := do
  let count ← word
  return AddressSet.ofList (← wordList count.toNat)

/-! ## The whole machine -/

/-- Takes a machine off the front of a dump. Its random bytes are given; its screen is to be
drawn, whatever the dump says. -/
def machine (noise : Noise) : Reader Machine := do
  let memory ← block 4096
  let flags ← block 8
  let v ← block 16
  let depth ← require .stackPointer (depth? (← byte))
  let delay ← byte
  let sound ← byte
  let stack ← wordBlock 16
  let pc ← word
  let index ← word
  let keys ← bools 16
  let awaiting ← require .keyWait (awaiting? (← byte))
  let running ← byte
  let screen ← raster
  let switches ← byte
  let dialect ← require .dialect (Dialect.ofRank? (← byte).toNat)
  let _ ← byte
  let small ← require .smallFont (Font.ofNumber? .small (← byte).toNat)
  let big ← require .bigFont (Font.ofNumber? .big (← byte).toNat)
  let background ← double
  let foreground ← double
  let breakpoints ← breakpoints
  return {
    ram := { cells := memory }
    v, flags, index, pc, depth, stack, delay, sound, keys, awaiting, screen
    running := running != 0
    redraw := true
    switches := Switches.ofBits switches.toNat
    dialect
    fonts := { small, big }
    palette := { background, foreground }
    breakpoints, noise }

end Dump

namespace Machine

open Dump

/-- The dump of a machine. -/
def dump (m : Machine) : List UInt8 :=
  m.ram.toList ++ m.flags.toList ++ m.v.toList ++
  [UInt8.ofNat m.depth.val, m.delay, m.sound] ++
  m.stack.toList.flatMap splitWord ++ splitWord m.pc ++ splitWord m.index ++
  m.keys.toList.map ofBool ++ [ofAwaiting m.awaiting, ofBool m.running] ++
  ofRaster m.screen ++
  [UInt8.ofNat m.switches.bits, UInt8.ofNat m.dialect.rank, ofBool m.redraw,
   UInt8.ofNat m.fonts.small.number, UInt8.ofNat m.fonts.big.number] ++
  ofDouble m.palette.background ++ ofDouble m.palette.foreground ++
  ofBreakpoints m.breakpoints

/-- The machine of a dump, with the random bytes of this one. -/
def restore (m : Machine) (bytes : List UInt8) : Except Failure Machine :=
  ((Dump.machine m.noise).run bytes).map (·.1)

/-! ## Flag registers on their own -/

/-- The flag registers as bytes. -/
def dumpFlags (m : Machine) : List UInt8 := m.flags.toList

/-- Reads the flag registers from a file. A file that is too short still changes the registers that
it has bytes for, and is an error. -/
def readFlags (m : Machine) (bytes : List UInt8) : Option IoError × Machine :=
  let given := (bytes.take 8).toArray
  let flags := Vector.ofFn fun i : Fin 8 => given[i.val]?.getD (m.flag i)
  (if bytes.length < 8 then some .shortRead else none, { m with flags })

/-- Reads the flag registers from bytes at hand; too few of them change nothing. -/
def restoreFlags (m : Machine) (bytes : List UInt8) : Except IoError Machine :=
  match m.readFlags bytes with
  | (some cause, _) => .error cause
  | (none, m) => .ok m

end Machine
end ChipEight
