import ChipEight.Failure
import ChipEight.Glyph.Choice
import ChipEight.Program

/-!
# Memory

Memory has 4096 cells of a byte. An address has sixteen bits, of which single reads and writes use
the low twelve, so they always hit a cell. A block, in contrast, must lie inside memory as it is
addressed.

    0x000 - 0x04F   small glyphs
    0x050 - 0x0EF   big glyphs
    0x0F0 - 0x1FF   free
    0x200 - 0xFFF   program
-/

namespace ChipEight

/-- The bytes of memory. -/
structure Ram where
  cells : Vector UInt8 4096 := Vector.replicate 4096 0
  deriving DecidableEq, Inhabited

namespace Ram

/-! ## Single cells -/

/-- The cell that an address selects. -/
def cell (a : UInt16) : Fin 4096 := ⟨a.toNat % 4096, Nat.mod_lt _ (by decide)⟩

/-- The byte at an address. -/
def read (m : Ram) (a : UInt16) : UInt8 := m.cells[cell a]

/-- Memory with a byte written at an address. -/
def write (m : Ram) (a : UInt16) (b : UInt8) : Ram := { cells := m.cells.set (cell a) b }

theorem read_write_same (m : Ram) (a : UInt16) (b : UInt8) : (m.write a b).read a = b := by
  simp [read, write]

theorem read_write_of_ne (m : Ram) {a c : UInt16} (b : UInt8) (h : cell a ≠ cell c) :
    (m.write a b).read c = m.read c := by
  have hv : (cell a).val ≠ (cell c).val := fun heq => h (Fin.ext heq)
  simp [read, write, hv]

/-- The word at an address, high byte first. -/
def word (m : Ram) (a : UInt16) : UInt16 := joinBytes (m.read a) (m.read (a + 1))

/-! ## Runs of cells -/

/-- Memory with bytes written one after another from an address on. -/
def writeAll (m : Ram) (a : UInt16) : List UInt8 → Ram
  | [] => m
  | b :: rest => (m.write a b).writeAll (a + 1) rest

/-- The bytes of `n` addresses one after another. -/
def readAll (m : Ram) (a : UInt16) : Nat → List UInt8
  | 0 => []
  | n + 1 => m.read a :: m.readAll (a + 1) n

/-! ## Blocks -/

/-- Memory with a block laid over the cells from number `start` on; what reaches beyond the last
cell is lost. -/
def overlay (m : Ram) (start : Nat) (block : List UInt8) : Ram :=
  let bytes := block.toArray
  { cells := Vector.ofFn fun i =>
      if start ≤ i.val then bytes[i.val - start]?.getD m.cells[i] else m.cells[i] }

/-- Stores a block at an address. An empty block may start right behind the last cell, but not
further out. -/
def store (m : Ram) (a : UInt16) (block : List UInt8) : Except Misfit Ram :=
  let room := memorySize - a.toNat
  if block.length > room then .error (.tooLarge block.length room)
  else if a.toNat > memorySize then .error .startsOutside
  else .ok (m.overlay a.toNat block)

/-- The block of `n` bytes at an address, if it lies inside memory. -/
def slice? (m : Ram) (a : UInt16) (n : Nat) : Option (List UInt8) :=
  if a.toNat + n ≤ memorySize then some ((m.cells.toList.drop a.toNat).take n) else none

/-- All bytes of memory. -/
def toList (m : Ram) : List UInt8 := m.cells.toList

theorem length_toList (m : Ram) : m.toList.length = 4096 := by simp [toList]

/-! ## Fonts -/

/-- The address of the small glyphs. -/
def smallGlyphs : Nat := 0x000

/-- The address of the big glyphs, right after the small ones. -/
def bigGlyphs : Nat := smallGlyphs + 16 * Glyph.smallSize

/-- Memory with the glyphs of two fonts at their places. -/
def withFonts (m : Ram) (fonts : Fonts) : Ram :=
  (m.overlay smallGlyphs fonts.small.glyphs).overlay bigGlyphs fonts.big.glyphs

/-- Memory that holds nothing but the glyphs of two fonts. -/
def ofFonts (fonts : Fonts) : Ram := ({} : Ram).withFonts fonts

end Ram

/-! ## Programs -/

/-- Memory with the address at which it loads programs. -/
structure MemoryMap where
  ram : Ram
  start : UInt16 := UInt16.ofNat programStart

/-- Loads a program at the start address. -/
def MemoryMap.load (m : MemoryMap) (program : List UInt8) : Except Misfit MemoryMap :=
  (m.ram.store m.start program).map fun ram => { m with ram }

/-- Loads a program at the usual start address. -/
def Ram.load (m : Ram) (program : List UInt8) : Except Misfit Ram :=
  (MemoryMap.load { ram := m } program).map (·.ram)

theorem Ram.load_eq (m : Ram) (program : List UInt8) :
    m.load program = m.store (UInt16.ofNat programStart) program := by
  rw [Ram.load, MemoryMap.load]
  cases m.store (UInt16.ofNat programStart) program <;> rfl

end ChipEight
