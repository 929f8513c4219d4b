import ChipEight.Machine.State
import ChipEight.Text.Pieces

/-!
# Commands of the debugger

A line of the debugger is a command and its argument. A command may be cut down to its first
letter; where two commands share it, the first of the list is meant.

    break [ADDRESS], rmbreak [ADDRESS], continue, next, set ATTRIBUTE VALUE,
    load PATH, save PATH, print [ATTRIBUTE], help, quit, loadflags PATH, saveflags PATH
-/

namespace ChipEight.Debugger

open Text

/-! ## Attributes -/

/-- A part of the machine that the debugger shows, and mostly also changes. -/
inductive Attribute
  | programCounter
  | stackDepth
  | delayTimer
  | soundTimer
  | index
  | awaiting
  | stack
  | registers
  | register (x : Fin 16)
  | flags
  | flag (x : Fin 8)
  | memory (address : UInt16)
  | switches
  | background
  | foreground
  | smallFont
  | bigFont
  deriving DecidableEq, Repr

/-- The attributes with a name of their own. -/
def namedAttributes : List (String × Attribute) :=
  [("PC", .programCounter), ("SP", .stackDepth), ("DT", .delayTimer), ("ST", .soundTimer),
   ("I", .index), ("VK", .awaiting), ("K", .awaiting), ("stack", .stack), ("quirks", .switches),
   ("bg", .background), ("fg", .foreground), ("sfont", .smallFont), ("bfont", .bigFont),
   ("V", .registers), ("R", .flags)]

/-- The largest address that the debugger takes. -/
def maxAddress : Nat := 0xFFF

/-- The attribute with a number in its name: a register, a flag register or an address. -/
def numberedAttribute? (s : List Char) : Option Attribute :=
  match s with
  | 'V' :: digits =>
    (unsigned? 16 digits).bind fun n =>
      if h : n < 16 then some (.register ⟨n, h⟩) else none
  | 'R' :: digits =>
    (unsigned? 16 digits).bind fun n => if h : n < 8 then some (.flag ⟨n, h⟩) else none
  | '$' :: _ | 'x' :: _ => (numberUpTo? maxAddress s).map fun n => .memory (UInt16.ofNat n)
  | _ => none

/-- Reads the name of an attribute. -/
def Attribute.ofText? (s : List Char) : Option Attribute :=
  match namedAttributes.lookup (String.ofList s) with
  | some a => some a
  | none => numberedAttribute? s

/-! ## Commands -/

/-- How the program goes on after the debugger. -/
inductive Action
  /-- Run to the next breakpoint. -/
  | resume
  /-- Execute one instruction and come back. -/
  | step
  | quit
  deriving DecidableEq, Repr

/-- The words that commands start with. -/
inductive Verb
  | addBreakpoint
  | removeBreakpoint
  | resume
  | step
  | set
  | load
  | save
  | print
  | help
  | quit
  | loadFlags
  | saveFlags
  deriving DecidableEq, Repr

/-- The words, in the order in which a single letter is looked up. -/
def Verb.all : List (String × Verb) :=
  [("break", addBreakpoint), ("rmbreak", removeBreakpoint), ("continue", resume), ("next", step),
   ("set", set), ("load", load), ("save", save), ("print", print), ("help", help), ("quit", quit),
   ("loadflags", loadFlags), ("saveflags", saveFlags)]

/-- The verb of a word: the whole word, or its first letter. -/
def Verb.ofText? (s : List Char) : Option Verb :=
  match Verb.all.lookup (String.ofList s) with
  | some verb => some verb
  | none =>
    match s with
    | [letter] => (Verb.all.find? fun entry => entry.1.toList.head? == some letter).map (·.2)
    | _ => none

/-- What is wrong with a command. -/
inductive CommandFlaw
  | unknownCommand
  | missingArgument
  | unknownAttribute
  | badAddress (text : String)
  deriving DecidableEq, Repr

/-- The wording of a flaw. -/
def CommandFlaw.message : CommandFlaw → String
  | unknownCommand => "Invalid command"
  | missingArgument => "Not enough arguments."
  | unknownAttribute => "Invalid argument"
  | badAddress text => s!"Invalid address '{text}'"

/-- A command that leaves the debugger in charge. -/
inductive Command
  /-- Add a breakpoint at an address, or at the program counter. -/
  | addBreakpoint (address : Option UInt16)
  /-- Remove the breakpoint at an address, or at the program counter. -/
  | removeBreakpoint (address : Option UInt16)
  /-- Change an attribute. -/
  | set (part : Attribute) (value : List Char)
  /-- Read a dump. -/
  | load (path : String)
  /-- Write a dump. -/
  | save (path : String)
  /-- Show everything except memory. -/
  | printAll
  /-- Show an attribute. -/
  | print (part : Attribute)
  /-- Show the commands. -/
  | help
  /-- Read the flag registers. -/
  | loadFlags (path : String)
  /-- Write the flag registers. -/
  | saveFlags (path : String)
  deriving DecidableEq, Repr

/-- What a line asks for. -/
inductive Request
  /-- Something to do before the next line. -/
  | perform (command : Command)
  /-- To leave the debugger. -/
  | leave (action : Action)
  deriving DecidableEq, Repr

/-- Reads an address; without a text there is none. -/
def addressArgument (s : List Char) : Except CommandFlaw (Option UInt16) :=
  if s.isEmpty then .ok none
  else
    match numberUpTo? maxAddress s with
    | some n => .ok (some (UInt16.ofNat n))
    | none => .error (.badAddress (String.ofList s))

/-- Reads a path, which must not be empty. -/
def pathArgument (s : List Char) : Except CommandFlaw String :=
  if s.isEmpty then .error .missingArgument else .ok (String.ofList s)

/-- Reads the name of an attribute. -/
def attributeArgument (s : List Char) : Except CommandFlaw Attribute :=
  match Attribute.ofText? s with
  | some a => .ok a
  | none => .error .unknownAttribute

/-- Reads an attribute and a value. -/
def setArguments (s : List Char) : Except CommandFlaw Command :=
  match cutWhen isBlank s with
  | none => .error .missingArgument
  | some (part, value) => (attributeArgument part).map fun a => .set a (trim value)

/-- What a verb asks for with the text after it. -/
def Request.ofVerb (s : List Char) : Verb → Except CommandFlaw Request
  | .addBreakpoint => (addressArgument s).map fun a => .perform (.addBreakpoint a)
  | .removeBreakpoint => (addressArgument s).map fun a => .perform (.removeBreakpoint a)
  | .resume => .ok (.leave .resume)
  | .step => .ok (.leave .step)
  | .quit => .ok (.leave .quit)
  | .set => (setArguments s).map .perform
  | .load => (pathArgument s).map fun p => .perform (.load p)
  | .save => (pathArgument s).map fun p => .perform (.save p)
  | .print =>
    if s.isEmpty then .ok (.perform .printAll)
    else (attributeArgument s).map fun a => .perform (.print a)
  | .help => .ok (.perform .help)
  | .loadFlags => (pathArgument s).map fun p => .perform (.loadFlags p)
  | .saveFlags => (pathArgument s).map fun p => .perform (.saveFlags p)

/-- Reads a line. -/
def Request.ofText (line : List Char) : Except CommandFlaw Request :=
  let (word, rest) := headAndRest (trim line)
  match Verb.ofText? word with
  | some verb => Request.ofVerb (trim rest) verb
  | none => .error .unknownCommand

end ChipEight.Debugger
