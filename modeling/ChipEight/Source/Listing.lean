import ChipEight.Instruction.Written
import ChipEight.Program

/-!
# Listings

A listing writes a program as assembly source, one line to a word, as it would stand in memory
from the start address on. On request each line starts with its address, and addresses inside the
program are replaced with labels, numbered in the order in which the program refers to them.
-/

namespace ChipEight

open Text

/-- What a listing shows beside the instructions. -/
structure ListingOptions where
  /-- Start each line with its address. -/
  addresses : Bool := false
  /-- Write labels for the addresses inside the program. -/
  labels : Bool := false
  deriving DecidableEq, Repr

namespace Listing

/-! ## Labels -/

/-- Whether one of the first `count` words of a program starts at an address. -/
def startsWord (count : Nat) (address : UInt16) : Bool :=
  let a := address.toNat
  programStart ≤ a && a < programStart + 2 * count && a % 2 == 0

/-- The addresses that get a label: those that a word refers to and at which a word starts, in the
order of their first reference. -/
def labelled (ws : List UInt16) : List UInt16 :=
  ((ws.filterMap jumpTarget?).filter (startsWord ws.length)).eraseDups

/-- The number of the label at an address; the first label has number 1. -/
def labelAt (targets : List UInt16) (address : UInt16) : Option Nat :=
  (targets.idxOf? address).map (· + 1)

/-! ## Lines -/

/-- The address in front of a line. -/
def addressMark (options : ListingOptions) (address : Nat) : List Char :=
  if options.addresses then hex 3 address ++ [':', ' '] else []

/-- The lines of the word at an address: its label, if it has one, and the word. -/
def wordLines (options : ListingOptions) (targets : List UInt16) (address : Nat) (w : UInt16) :
    List (List Char) :=
  let own := match labelAt targets (UInt16.ofNat address) with
    | some n => [labelName n ++ [':']]
    | none => []
  own ++ [addressMark options address ++ wordText (labelAt targets) w]

/-- The lines of words that stand one after another from an address on. -/
def linesFrom (options : ListingOptions) (targets : List UInt16) (address : Nat) :
    List UInt16 → List (List Char)
  | [] => []
  | w :: ws => wordLines options targets address w ++ linesFrom options targets (address + 2) ws

/-- The line of an odd byte, which is never part of an instruction. -/
def byteLine (options : ListingOptions) (address : Nat) (byte : UInt8) : List Char :=
  addressMark options address ++ ".db ".toList ++ dollar 2 byte.toNat

/-- The lines of a whole program. -/
def lines (options : ListingOptions) (program : List UInt8) : List (List Char) :=
  let ws := words program
  let targets := if options.labels then labelled ws else []
  linesFrom options targets programStart ws ++
    (oddByte? program).toList.map (byteLine options (programStart + 2 * ws.length))

/-- The characters of a listing; each line ends in a line feed. -/
def characters (options : ListingOptions) (program : List UInt8) : List Char :=
  (lines options program).flatMap (· ++ ['\n'])

end Listing

/-- Lists a program. -/
def listing (options : ListingOptions) (program : List UInt8) : String :=
  String.ofList (Listing.characters options program)

end ChipEight
