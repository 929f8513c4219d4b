import ChipEight.Instruction.Form
import ChipEight.Text.Numeral

/-!
# Written instructions

The text of one instruction word: its mnemonic and operands, or a `.dw` directive for a word that
is no instruction. An address operand is a number, or a label where the caller has one for it.
-/

namespace ChipEight

open Text

/-- The name of a numbered label. -/
def labelName (n : Nat) : List Char := "label".toList ++ decimal n

/-- A number as listings write it: a dollar sign and at least `width` hexadecimal digits. -/
def dollar (width n : Nat) : List Char := '$' :: hex width n

/-- The name of a register. -/
def registerName (x : Fin 16) : List Char := 'V' :: hex 1 x.val

/-- The text of one operand. `target` is the text to use for an address. -/
def Slot.written (target : List Char) (o : Operands) : Slot → List Char
  | .registerX => registerName o.x
  | .registerY => registerName o.y
  | .byte => dollar 2 o.byte.toNat
  | .nibble => dollar 1 o.low.val
  | .count => decimal o.low.val
  | .address => target
  | .literal text => text.toList

/-- The text of an instruction of a given form. -/
def Form.written (f : Form) (target : List Char) (o : Operands) : List Char :=
  match f.slots with
  | [] => f.mnemonic.toList
  | slots =>
    f.mnemonic.toList ++ ' ' :: ", ".toList.intercalate (slots.map (Slot.written target o))

/-- The text of an address: its label, or a number of three digits. -/
def addressText (label? : UInt16 → Option Nat) (address : UInt16) : List Char :=
  match label? address with
  | some n => labelName n
  | none => dollar 3 address.toNat

/-- The text of a word, with labels for the addresses that have one. -/
def wordText (label? : UInt16 → Option Nat) (w : UInt16) : List Char :=
  match Form.find? w with
  | none => ".dw ".toList ++ dollar 4 w.toNat
  | some form =>
    let o := Operands.ofWord w
    form.written (addressText label? o.address) o

/-- The text of a word on its own, without labels. -/
def disassemble (w : UInt16) : String := String.ofList (wordText (fun _ => none) w)

end ChipEight
