import ChipEight.Dialect
import ChipEight.Instruction.Operation
import ChipEight.Instruction.Word

/-!
# Instruction forms

One table says everything about the instruction set: which words mean an operation, how it is
written, and which dialect has it first. Decoding, listing and assembly all read this table.
-/

namespace ChipEight

/-! ## The digits of a form -/

/-- One digit of a form: given, or left to an operand. -/
inductive Digit
  | fixed (d : Fin 16)
  | free
  deriving DecidableEq, Repr

instance (n : Nat) : OfNat Digit n := ⟨.fixed (lastDigit n)⟩

namespace Digit

/-- Whether a digit of a word can stand for a digit of a form. -/
def fits : Digit → Fin 16 → Bool
  | fixed d, e => d == e
  | free, _ => true

/-- The digit of the mask: all bits for a given digit, none for a free one. -/
def mask : Digit → Nat
  | fixed _ => 15
  | free => 0

/-- The digit of the pattern: a free digit counts as zero. -/
def value : Digit → Nat
  | fixed d => d.val
  | free => 0

end Digit

/-- The four digits of a form, first digit first. -/
structure Shape where
  first : Digit
  second : Digit
  third : Digit
  last : Digit
  deriving DecidableEq, Repr

namespace Shape

/-- Whether four digits have a given shape. -/
def fits (s : Shape) (a b c d : Fin 16) : Bool :=
  s.first.fits a && s.second.fits b && s.third.fits c && s.last.fits d

/-- The bits of a word that a shape gives. -/
def mask (s : Shape) : UInt16 :=
  UInt16.ofNat (4096 * s.first.mask + 256 * s.second.mask + 16 * s.third.mask + s.last.mask)

/-- The word with this shape and all operands zero. -/
def pattern (s : Shape) : UInt16 :=
  UInt16.ofNat (4096 * s.first.value + 256 * s.second.value + 16 * s.third.value + s.last.value)

end Shape

/-! ## Operand slots -/

/-- What stands at one operand position of a written instruction. -/
inductive Slot
  /-- The register of the second digit. -/
  | registerX
  /-- The register of the third digit. -/
  | registerY
  /-- The last two digits as a number. -/
  | byte
  /-- The last digit, written in hexadecimal. -/
  | nibble
  /-- The last digit, written in decimal. -/
  | count
  /-- The last three digits, as a number or a label. -/
  | address
  /-- A fixed word. -/
  | literal (text : String)
  deriving DecidableEq, Repr

/-- The slot as manuals write it, with the name of the operand in braces. -/
def Slot.manual : Slot → String
  | registerX => "V\x7bx\x7d"
  | registerY => "V\x7by\x7d"
  | byte => "\x7bkk\x7d"
  | nibble => "\x7bb\x7d"
  | count => "\x7bn\x7d"
  | address => "\x7bnnn\x7d"
  | literal text => text

/-! ## Forms -/

/-- A row of the instruction table. -/
structure Form where
  operation : Operation
  mnemonic : String
  slots : List Slot
  shape : Shape
  /-- The first dialect that has the instruction. -/
  dialect : Dialect
  deriving DecidableEq, Repr

namespace Form

open Dialect Slot

/-- The form as manuals write it: the mnemonic and its operands. -/
def manual (f : Form) : String :=
  match f.slots with
  | [] => f.mnemonic
  | slots => f.mnemonic ++ " " ++ ", ".intercalate (slots.map Slot.manual)

/-- The instruction set. No word fits two rows. -/
def table : List Form :=
  [⟨.clearScreen, "CLS", [], ⟨0, 0, 0xE, 0⟩, chip8⟩,
   ⟨.ret, "RET", [], ⟨0, 0, 0xE, 0xE⟩, chip8⟩,
   ⟨.scrollDown, "SCD", [count], ⟨0, 0, 0xC, .free⟩, superChip⟩,
   ⟨.scrollUp, "SCU", [count], ⟨0, 0, 0xD, .free⟩, xoChip⟩,
   ⟨.scrollRight, "SCR", [], ⟨0, 0, 0xF, 0xB⟩, superChip⟩,
   ⟨.scrollLeft, "SCL", [], ⟨0, 0, 0xF, 0xC⟩, superChip⟩,
   ⟨.exit, "EXIT", [], ⟨0, 0, 0xF, 0xD⟩, superChip⟩,
   ⟨.lowResolution, "LOW", [], ⟨0, 0, 0xF, 0xE⟩, superChip⟩,
   ⟨.highResolution, "HIGH", [], ⟨0, 0, 0xF, 0xF⟩, superChip⟩,
   ⟨.jump, "JP", [address], ⟨1, .free, .free, .free⟩, chip8⟩,
   ⟨.call, "CALL", [address], ⟨2, .free, .free, .free⟩, chip8⟩,
   ⟨.skipIfByte, "SE", [registerX, byte], ⟨3, .free, .free, .free⟩, chip8⟩,
   ⟨.skipUnlessByte, "SNE", [registerX, byte], ⟨4, .free, .free, .free⟩, chip8⟩,
   ⟨.skipIfRegister, "SE", [registerX, registerY], ⟨5, .free, .free, 0⟩, chip8⟩,
   ⟨.saveRange, "SAVE", [registerX, registerY], ⟨5, .free, .free, 2⟩, xoChip⟩,
   ⟨.loadRange, "LOAD", [registerX, registerY], ⟨5, .free, .free, 3⟩, xoChip⟩,
   ⟨.setByte, "LD", [registerX, byte], ⟨6, .free, .free, .free⟩, chip8⟩,
   ⟨.addByte, "ADD", [registerX, byte], ⟨7, .free, .free, .free⟩, chip8⟩,
   ⟨.copyRegister, "LD", [registerX, registerY], ⟨8, .free, .free, 0⟩, chip8⟩,
   ⟨.orRegister, "OR", [registerX, registerY], ⟨8, .free, .free, 1⟩, chip8⟩,
   ⟨.andRegister, "AND", [registerX, registerY], ⟨8, .free, .free, 2⟩, chip8⟩,
   ⟨.xorRegister, "XOR", [registerX, registerY], ⟨8, .free, .free, 3⟩, chip8⟩,
   ⟨.addRegister, "ADD", [registerX, registerY], ⟨8, .free, .free, 4⟩, chip8⟩,
   ⟨.subtract, "SUB", [registerX, registerY], ⟨8, .free, .free, 5⟩, chip8⟩,
   ⟨.shiftRight, "SHR", [registerX, registerY], ⟨8, .free, .free, 6⟩, chip8⟩,
   ⟨.subtractFrom, "SUBN", [registerX, registerY], ⟨8, .free, .free, 7⟩, chip8⟩,
   ⟨.shiftLeft, "SHL", [registerX, registerY], ⟨8, .free, .free, 0xE⟩, chip8⟩,
   ⟨.skipUnlessRegister, "SNE", [registerX, registerY], ⟨9, .free, .free, 0⟩, chip8⟩,
   ⟨.setIndex, "LD", [literal "I", address], ⟨0xA, .free, .free, .free⟩, chip8⟩,
   ⟨.jumpOffset, "JP", [literal "V0", address], ⟨0xB, .free, .free, .free⟩, chip8⟩,
   ⟨.random, "RND", [registerX, byte], ⟨0xC, .free, .free, .free⟩, chip8⟩,
   ⟨.drawSprite, "DRW", [registerX, registerY, nibble], ⟨0xD, .free, .free, .free⟩, chip8⟩,
   ⟨.skipIfKey, "SKP", [registerX], ⟨0xE, .free, 9, 0xE⟩, chip8⟩,
   ⟨.skipUnlessKey, "SKNP", [registerX], ⟨0xE, .free, 0xA, 1⟩, chip8⟩,
   ⟨.readDelay, "LD", [registerX, literal "DT"], ⟨0xF, .free, 0, 7⟩, chip8⟩,
   ⟨.readKey, "LD", [registerX, literal "K"], ⟨0xF, .free, 0, 0xA⟩, chip8⟩,
   ⟨.setDelay, "LD", [literal "DT", registerX], ⟨0xF, .free, 1, 5⟩, chip8⟩,
   ⟨.setSound, "LD", [literal "ST", registerX], ⟨0xF, .free, 1, 8⟩, chip8⟩,
   ⟨.addIndex, "ADD", [literal "I", registerX], ⟨0xF, .free, 1, 0xE⟩, chip8⟩,
   ⟨.smallGlyph, "LD", [literal "F", registerX], ⟨0xF, .free, 2, 9⟩, chip8⟩,
   ⟨.bigGlyph, "LD", [literal "HF", registerX], ⟨0xF, .free, 3, 0⟩, superChip⟩,
   ⟨.storeDecimal, "LD", [literal "B", registerX], ⟨0xF, .free, 3, 3⟩, chip8⟩,
   ⟨.storeRegisters, "LD", [literal "[I]", registerX], ⟨0xF, .free, 5, 5⟩, chip8⟩,
   ⟨.loadRegisters, "LD", [registerX, literal "[I]"], ⟨0xF, .free, 6, 5⟩, chip8⟩,
   ⟨.storeFlags, "LD", [literal "R", registerX], ⟨0xF, .free, 7, 5⟩, superChip⟩,
   ⟨.loadFlags, "LD", [registerX, literal "R"], ⟨0xF, .free, 8, 5⟩, superChip⟩]

/-! ## Decoding -/

/-- The form of the word with four given digits. -/
def lookup (a b c d : Fin 16) : Option Form := table.find? fun f => f.shape.fits a b c d

/-- The form of a word, if it is an instruction of any dialect. -/
def find? (w : UInt16) : Option Form := lookup (digitAt w 3) (digitAt w 2) (digitAt w 1) (digitAt w 0)

/-- Whether the instruction can name an address. -/
def hasAddress (f : Form) : Bool := f.slots.contains .address

end Form

/-- The address that a jump, a call or a load of the index register names. -/
def jumpTarget? (w : UInt16) : Option UInt16 :=
  ((Form.find? w).filter (·.hasAddress)).map fun _ => (Operands.ofWord w).address

end ChipEight
