import ChipEight.Instruction.Form
import ChipEight.Notice
import ChipEight.Program
import ChipEight.Text.Pieces

/-!
# Assembly

Source text becomes a program in two passes. A line is

    [label:] [mnemonic [operand, ...]] [; comment]
    [label:] db value[, value ...]
    [label:] dw value[, value ...]

The first pass finds the address of every statement and label, the second encodes the statements
with all labels known. An address in front of a line, as listings have it, is skipped.

## Termination

Both passes recurse on the list of lines or statements.
-/

namespace ChipEight.Assembly

open Text

/-! ## Statements -/

/-- A statement with the text of its operands. -/
inductive Statement
  | instruction (mnemonic : List Char) (operands : List (List Char))
  | bytes (values : List (List Char))
  | words (values : List (List Char))
  deriving DecidableEq, Repr

namespace Statement

/-- The bytes that a statement takes in the program. -/
def size : Statement → Nat
  | instruction _ _ => 2
  | bytes values => values.length
  | words values => 2 * values.length

end Statement

/-- The operands of a statement: the texts between the commas, without blanks around them. -/
def operandsOf (s : List Char) : List (List Char) :=
  if (trim s).isEmpty then [] else (pieces ',' s).map trim

/-- The statement of a text without blanks around it; an empty text has none. Directives may have
leading dots, and their case does not matter. -/
def Statement.ofText? (s : List Char) : Option Statement :=
  if s.isEmpty then none
  else
    let (head, rest) := headAndRest s
    let directive := (lower head).dropWhile (· == '.')
    if directive = ['d', 'b'] then some (.bytes (operandsOf rest))
    else if directive = ['d', 'w'] then some (.words (operandsOf rest))
    else some (.instruction head (operandsOf rest))

/-! ## Lines -/

/-- A source line without its comment: the texts before colons, and the text after the last. -/
structure SourceLine where
  names : List (List Char)
  code : List Char
  deriving DecidableEq, Repr

/-- A line without the comment that a semicolon starts. -/
def withoutComment (raw : List Char) : List Char := ((cutAt ';' raw).map (·.1)).getD raw

/-- Takes a line apart at its colons; no part keeps blanks around it. -/
def SourceLine.ofText (raw : List Char) : SourceLine :=
  let parts := (pieces ':' (withoutComment raw)).map trim
  { names := parts.dropLast, code := parts.getLastD [] }

/-- Whether the text before a colon is an address of a listing: hexadecimal digits, the first of
them decimal. -/
def isAddressMark : List Char → Bool
  | [] => false
  | c :: rest => c.isDigit && rest.all isHexDigit

/-! ## First pass -/

/-- The labels with their addresses, latest first. -/
abbrev Labels := List (List Char × Nat)

/-- A statement with its place in the source and in memory. -/
structure Placed where
  line : Nat
  text : List Char
  address : Nat
  statement : Statement
  deriving DecidableEq, Repr

/-- What the first pass finds. -/
structure Layout where
  labels : Labels
  placed : List Placed
  /-- The address after the last statement. -/
  stop : Nat
  deriving DecidableEq, Repr

/-- Defines the labels of a line at an address. -/
def define (line address : Nat) (labels : Labels) : List (List Char) → Except Failure Labels
  | [] => .ok labels
  | name :: rest =>
    if isAddressMark name then define line address labels rest
    else if !isName name then .error (.source line (.badLabel (String.ofList name)))
    else if (labels.lookup name).isSome then
      .error (.source line (.duplicateLabel (String.ofList name)))
    else define line address ((name, address) :: labels) rest

/-- Places the statements of the lines from number `line` on, starting at an address. -/
def layOut (line address : Nat) (labels : Labels) : List (List Char) → Except Failure Layout
  | [] => .ok { labels, placed := [], stop := address }
  | raw :: rest => do
    let source := SourceLine.ofText raw
    let labels ← define line address labels source.names
    match Statement.ofText? source.code with
    | none => layOut (line + 1) address labels rest
    | some statement =>
      let later ← layOut (line + 1) (address + statement.size) labels rest
      let own := { line, text := source.code, address, statement }
      return { later with placed := own :: later.placed }

/-! ## Operands -/

/-- The number of a register: `V` in either case and a hexadecimal digit. -/
def register? : List Char → Option Nat
  | [v, d] => if v == 'V' || v == 'v' then digitValue d else none
  | _ => none

/-- Reads an address: a number, or a label, of which the low twelve bits count. A name without a
definition is an error. -/
def address? (labels : Labels) (s : List Char) : Option (Except SourceFlaw Nat) :=
  match numberUpTo? 0xFFF s with
  | some n => some (.ok n)
  | none =>
    if isName s then
      match labels.lookup s with
      | some a => some (.ok (a % 4096))
      | none => some (.error (.undefinedLabel (String.ofList s)))
    else none

/-- Reads the operand of a slot; `none` if the text has another shape. -/
def readSlot (labels : Labels) (s : List Char) : Slot → Option (Except SourceFlaw Nat)
  | .registerX | .registerY => (register? s).map .ok
  | .byte => (numberUpTo? 0xFF s).map .ok
  | .nibble | .count => (numberUpTo? 0xF s).map .ok
  | .address => address? labels s
  | .literal text => if sameLetters text.toList s then some (.ok 0) else none

/-- What one unit of a slot's operand is worth in the word. -/
def slotWeight : Slot → Nat
  | .registerX => 256
  | .registerY => 16
  | _ => 1

/-- Reads operands for slots, as the sum of what they are worth in the word. An operand of another
shape counts before an undefined label. -/
def readSlots (labels : Labels) : List Slot → List (List Char) → Option (Except SourceFlaw Nat)
  | [], [] => some (.ok 0)
  | slot :: slots, s :: rest =>
    match readSlot labels s slot, readSlots labels slots rest with
    | some (.ok n), some (.ok m) => some (.ok (slotWeight slot * n + m))
    | some (.error flaw), some _ => some (.error flaw)
    | some (.ok _), some (.error flaw) => some (.error flaw)
    | _, _ => none
  | _, _ => none

/-- The word of a form with given operands; `none` if they have another shape. -/
def encodeForm (labels : Labels) (operands : List (List Char)) (f : Form) :
    Option (Except SourceFlaw UInt16) :=
  (readSlots labels f.slots operands).map fun value =>
    value.map fun n => UInt16.ofNat (f.shape.pattern.toNat + n)

/-- The forms of a mnemonic. -/
def formsOf (mnemonic : List Char) : List Form :=
  Form.table.filter fun f => sameLetters f.mnemonic.toList mnemonic

/-- The word of an instruction: of the forms with its mnemonic, the first that its operands fit. -/
def encode (labels : Labels) (mnemonic : List Char) (operands : List (List Char)) :
    Except SourceFlaw UInt16 :=
  let forms := formsOf mnemonic
  match forms.findSome? (encodeForm labels operands) with
  | some result => result
  | none =>
    let name := String.ofList mnemonic
    if forms.isEmpty then .error (.unknownInstruction name)
    else .error (.badOperands name (String.ofList (", ".toList.intercalate operands)))

/-! ## Second pass -/

/-- The bytes of the values of a directive; each value has `width` bytes. -/
def valueBytes (max : Nat) (bytes : Nat → List UInt8) (flaw : String → SourceFlaw) :
    List (List Char) → Except SourceFlaw (List UInt8)
  | [] => .ok []
  | s :: rest =>
    match numberUpTo? max s with
    | none => .error (flaw (String.ofList s))
    | some n => (valueBytes max bytes flaw rest).map (bytes n ++ ·)

/-- The bytes of a statement. -/
def Statement.encode (labels : Labels) : Statement → Except SourceFlaw (List UInt8)
  | .instruction mnemonic operands => (Assembly.encode labels mnemonic operands).map splitWord
  | .bytes values => valueBytes 0xFF (fun n => [UInt8.ofNat n]) .badByte values
  | .words values => valueBytes 0xFFFF (fun n => splitWord (UInt16.ofNat n)) .badWord values

/-- A program with a record of each instruction in it. -/
structure Assembled where
  program : List UInt8
  notices : List Notice
  deriving DecidableEq, Repr

/-- The record of a statement that was encoded at an address; data leave none. -/
def noticeOf (address : Nat) (p : Placed) (bytes : List UInt8) : List Notice :=
  match p.statement with
  | .instruction _ _ =>
    (words bytes).map fun w => .encoded address w (String.ofList p.text)
  | _ => []

/-- Encodes statements one after another from an address on. -/
def encodeAll (labels : Labels) (address : Nat) : List Placed → Except Failure Assembled
  | [] => .ok { program := [], notices := [] }
  | p :: rest =>
    match p.statement.encode labels with
    | .error flaw => .error (.source p.line flaw)
    | .ok bytes => do
      let later ← encodeAll labels (address + bytes.length) rest
      return { program := bytes ++ later.program
               notices := noticeOf address p bytes ++ later.notices }

/-! ## Both passes -/

/-- Assembles the characters of a source text. -/
def ofCharacters (source : List Char) : Except Failure Assembled := do
  let layout ← layOut 1 programStart [] (lines source)
  let size := layout.stop - programStart
  if size > maxProgramSize then throw (.misfit (.tooLarge size maxProgramSize))
  encodeAll layout.labels programStart layout.placed

end Assembly

/-- Assembles a source text into a program. -/
def assemble (source : String) : Except Failure Assembly.Assembled :=
  Assembly.ofCharacters source.toList

end ChipEight
