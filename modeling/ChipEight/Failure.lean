import ChipEight.Text.Numeral

/-!
# Failures

Everything that can go wrong, as causes. A cause keeps the values that a message needs; the wording
of a message is written in one place, `message`, and nothing else depends on it.
-/

namespace ChipEight

open Text

/-! ## Files and devices -/

/-- Why a file or a device did not answer. -/
inductive IoError
  /-- Nothing has this name. -/
  | notFound
  /-- A folder stands where a file is needed. -/
  | isDirectory
  /-- A file stands where a folder is needed. -/
  | notDirectory
  /-- A part of the name is longer than 255 bytes. -/
  | nameTooLong
  /-- The name holds the character U+0000. -/
  | nulInName
  /-- The bytes ended before the value did. -/
  | shortRead
  /-- The bytes are not UTF-8. -/
  | notUtf8
  /-- A device says why it failed. -/
  | device (text : String)
  deriving DecidableEq, Repr

/-- The wording of a file or device failure. -/
def IoError.message : IoError → String
  | notFound => "No such file or directory (os error 2)"
  | isDirectory => "Is a directory (os error 21)"
  | notDirectory => "Not a directory (os error 20)"
  | nameTooLong => "File name too long (os error 36)"
  | nulInName => "file name contained an unexpected NUL byte"
  | shortRead => "failed to fill whole buffer"
  | notUtf8 => "stream did not contain valid UTF-8"
  | device text => text

/-! ## Execution -/

/-- Why an instruction could not be executed. Each cause keeps the program counter. -/
inductive Fault
  /-- The word is no instruction of the dialect in force. -/
  | invalidInstruction (word pc : UInt16)
  /-- A call found sixteen return addresses on the stack. -/
  | stackOverflow (pc : UInt16)
  /-- A return found no return address on the stack. -/
  | stackUnderflow (pc : UInt16)
  deriving DecidableEq, Repr

/-- The hexadecimal form of an address or a word, as messages and listings write it. -/
def hexText (width n : Nat) : String := String.ofList (hex width n)

/-- The wording of an execution failure. -/
def Fault.message : Fault → String
  | invalidInstruction word pc =>
    s!"invalid instruction {hexText 4 word.toNat} at {hexText 3 pc.toNat}"
  | stackOverflow pc => s!"stack overflow at {hexText 3 pc.toNat}"
  | stackUnderflow pc => s!"stack underflow at {hexText 3 pc.toNat}"

/-! ## Memory blocks -/

/-- Why a block of bytes does not fit into memory. -/
inductive Misfit
  /-- The block has `size` bytes where only `room` are left. -/
  | tooLarge (size room : Nat)
  /-- The block starts beyond the end of memory. -/
  | startsOutside
  deriving DecidableEq, Repr

/-! ## Settings, dumps and sources -/

/-- What is wrong with a description of two colours. -/
inductive PaletteFlaw
  /-- There is no comma between two colours. -/
  | notAPair (text : String)
  /-- A colour is no number of at most 24 bits. -/
  | badColour (text : String)
  /-- A palette file has fewer than two colours. -/
  | tooFewColours
  deriving DecidableEq, Repr

/-- The wording of a palette flaw. -/
def PaletteFlaw.message : PaletteFlaw → String
  | notAPair text => s!"expected 'bg,fg', got '{text}'"
  | badColour text => s!"bad colour '{text}'"
  | tooFewColours => "expected two colours"

/-- The field of a dump whose value no machine can have. -/
inductive DumpFlaw
  | stackPointer
  | keyWait
  | displayMode
  | dialect
  | smallFont
  | bigFont
  deriving DecidableEq, Repr

/-- The wording of a dump flaw. -/
def DumpFlaw.message : DumpFlaw → String
  | stackPointer => "stack pointer out of range"
  | keyWait => "key wait register out of range"
  | displayMode => "unknown display mode"
  | dialect => "unknown interpreter mode"
  | smallFont => "unknown small font"
  | bigFont => "unknown big font"

/-- What is wrong with a line of assembly source. -/
inductive SourceFlaw
  /-- A label is no name. -/
  | badLabel (name : String)
  /-- A label is defined twice. -/
  | duplicateLabel (name : String)
  /-- No instruction has this mnemonic. -/
  | unknownInstruction (mnemonic : String)
  /-- The mnemonic is known, but not with these operands. -/
  | badOperands (mnemonic operands : String)
  /-- An address names a label that is not defined. -/
  | undefinedLabel (name : String)
  /-- A value does not fit into a byte. -/
  | badByte (text : String)
  /-- A value does not fit into a word. -/
  | badWord (text : String)
  deriving DecidableEq, Repr

/-- The wording of a source flaw. -/
def SourceFlaw.message : SourceFlaw → String
  | badLabel name => s!"bad label '{name}'"
  | duplicateLabel name => s!"duplicate label '{name}'"
  | unknownInstruction mnemonic => s!"unknown instruction '{mnemonic}'"
  | badOperands mnemonic operands => s!"bad operands for {mnemonic}: '{operands}'"
  | undefinedLabel name => s!"undefined label '{name}'"
  | badByte text => s!"bad byte '{text}'"
  | badWord text => s!"bad word '{text}'"

/-! ## All of them -/

/-- Any failure that the library reports. -/
inductive Failure
  /-- An instruction failed. -/
  | fault (cause : Fault)
  /-- A file or a device failed. -/
  | io (cause : IoError)
  /-- A block does not fit into memory. -/
  | misfit (cause : Misfit)
  /-- A letter names no switch. -/
  | unknownSwitch (letter : Char)
  /-- The colours are not well described. -/
  | badPalette (flaw : PaletteFlaw)
  /-- No dialect has this name. -/
  | unknownDialect (name : String)
  /-- No font has this name. -/
  | unknownFont (name : String)
  /-- A dump holds a value that no machine has. -/
  | badDump (flaw : DumpFlaw)
  /-- A line of assembly source is wrong. -/
  | source (line : Nat) (flaw : SourceFlaw)
  deriving DecidableEq, Repr

/-- The wording of a failure. -/
def Failure.message : Failure → String
  | fault cause => cause.message
  | io cause => s!"io error: {cause.message}"
  | misfit (.tooLarge size room) =>
    s!"ROM is too large ({size} bytes), max size is {room} bytes"
  | misfit .startsOutside => "block starts outside memory"
  | unknownSwitch letter => s!"unknown quirk '{letter}' (expected one of b, d, j, l, s)"
  | badPalette flaw => s!"invalid colour palette: {flaw.message}"
  | unknownDialect name =>
    s!"unknown interpreter mode '{name}' (expected chip8, schip or xochip)"
  | unknownFont name => s!"unknown font '{name}'"
  | badDump flaw => s!"corrupt snapshot: {flaw.message}"
  | source line flaw => s!"line {line}: {flaw.message}"

end ChipEight
