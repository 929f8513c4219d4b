import ChipEight.Debugger.Attributes
import ChipEight.Folder
import ChipEight.Machine.Dump
import ChipEight.Notice

/-!
# Sessions of the debugger

A debugger reads lines until one of them lets the program go on. What it has not read yet is there
for the next pause, so a script of commands is shared out among the pauses line by line.

## Termination

A pause recurses on the lines that are left.
-/

namespace ChipEight.Debugger

open Text

/-! ## Commands -/

/-- What a command leaves behind. -/
structure Reply where
  machine : Machine
  folder : Folder
  /-- What the debugger writes. -/
  written : String := ""
  notices : List Notice := []

/-- The text that lists the commands and attributes. -/
def helpText : String := String.join (
  ["Available commands:\n",
   "break [ADDRESS]: Add breakpoint to PC or ADDRESS, if given\n",
   "rmbreak [ADDRESS]: Remove breakpoint at PC or ADDRESS, if given\n",
   "continue: Exit debug mode until next breakpoint or completion\n",
   "next: Step to the next instruction\n",
   "set ATTRIBUTE VALUE: Set the given attribute to the given value\n",
   "load PATH: Load program state from PATH\n",
   "save PATH: Save program state to PATH\n",
   "loadflags PATH: Load flag registers from PATH\n",
   "saveflags PATH: Save flag registers to PATH\n",
   "print [ATTRIBUTE]: Print current value of ATTRIBUTE\n",
   "help: Print this help string\n",
   "quit: Terminate the program\n",
   "\n",
   "Attributes:\n",
   "PC, SP, DT, ST, I: registers\n",
   "VK: register to store next keypress\n",
   "V, Vx, R, Rx: all registers, or just the one given\n",
   "stack: stack values\n",
   "$ADDRESS: value at ADDRESS\n",
   "bg, fg: colours\n",
   "quirks, sfont, bfont: quirk letters and font names\n",
   "\n",
   "Without an attribute, print shows everything except memory.\n"])

/-- The line that reports a failing file. -/
def invalidFile (message : String) : String := s!"Invalid file: {message}\n"

/-- Loads a dump from a file. -/
def loadDump (m : Machine) (folder : Folder) (path : String) : Except Failure Machine := do
  m.restore (← folder.readFile path)

/-- Performs a command. -/
def Command.perform (m : Machine) (folder : Folder) : Command → Reply
  | .addBreakpoint a => { machine := m.addBreakpoint (a.getD m.pc), folder }
  | .removeBreakpoint a => { machine := m.removeBreakpoint (a.getD m.pc), folder }
  | .help => { machine := m, folder, written := helpText }
  | .printAll => { machine := m, folder, written := overview m }
  | .print a => { machine := m, folder, written := a.shown m }
  | .set a value =>
    match a.change m value with
    | .ok next => { machine := next, folder }
    | .error flaw => { machine := m, folder, written := flaw.message ++ "\n" }
  | .load path =>
    match loadDump m folder path with
    | .ok next => { machine := next, folder, notices := [.stateLoaded path] }
    | .error failure => { machine := m, folder, written := invalidFile failure.message }
  | .save path =>
    match folder.write path m.dump with
    | .ok next => { machine := m, folder := next, notices := [.stateSaved path] }
    | .error cause =>
      { machine := m, folder, written := invalidFile (Failure.io cause).message }
  | .loadFlags path =>
    match folder.read path with
    | .error cause => { machine := m, folder, written := invalidFile cause.message }
    | .ok bytes =>
      match m.readFlags bytes with
      | (none, next) => { machine := next, folder }
      | (some cause, next) => { machine := next, folder, written := invalidFile cause.message }
  | .saveFlags path =>
    match folder.write path m.dumpFlags with
    | .ok next => { machine := m, folder := next }
    | .error cause => { machine := m, folder, written := invalidFile cause.message }

/-! ## Lines -/

/-- The lines of a script, each with the line feed that ends it. -/
def scriptLines : List UInt8 → List (List UInt8)
  | [] => []
  | b :: rest =>
    if b = 10 then [b] :: scriptLines rest
    else
      match scriptLines rest with
      | [] => [[b]]
      | line :: more => (b :: line) :: more

/-- No byte of a script is lost or moved. -/
theorem flatten_scriptLines (script : List UInt8) : (scriptLines script).flatten = script := by
  induction script with
  | nil => rfl
  | cons b rest ih =>
    unfold scriptLines
    split
    · simp [ih]
    · cases h : scriptLines rest with
      | nil =>
        rw [h] at ih
        simp [← ih]
      | cons line more =>
        rw [h] at ih
        simp [← ih]

/-! ## Pauses -/

/-- What a pause leaves behind. -/
structure Pause where
  action : Action
  machine : Machine
  folder : Folder
  /-- The lines for the next pause. -/
  rest : List (List UInt8)
  written : String
  notices : List Notice

/-- What the debugger writes when it is ready for a line. -/
def prompt : String := "debug > "

/-- A pause with something written and told before it. -/
def Pause.after (p : Pause) (written : String) (notices : List Notice) : Pause :=
  { p with written := written ++ p.written, notices := notices ++ p.notices }

/-- What a line asks for; nothing at all if it is blank. -/
def requestOf (line : List Char) : Option (Except CommandFlaw Request) :=
  if (trim line).isEmpty then none else some (Request.ofText line)

/-- Reads lines until one of them ends the pause. A line that is no UTF-8 ends it, and so does the
end of the script; both mean to quit. -/
def converse (m : Machine) (folder : Folder) : List (List UInt8) → Pause
  | [] =>
    { action := .quit, machine := m, folder, rest := [], written := prompt, notices := [] }
  | line :: rest =>
    match ofUtf8? line with
    | none =>
      { action := .quit, machine := m, folder, rest, written := prompt
        notices := [.debuggerFailed .notUtf8] }
    | some text =>
      match requestOf text with
      | none => (converse m folder rest).after prompt []
      | some (.error flaw) =>
        (converse m folder rest).after (prompt ++ flaw.message ++ "\n") []
      | some (.ok (.leave action)) =>
        { action, machine := m, folder, rest, written := prompt, notices := [] }
      | some (.ok (.perform command)) =>
        let reply := command.perform m folder
        (converse reply.machine reply.folder rest).after (prompt ++ reply.written) reply.notices

/-- A debugger between two pauses: the lines it has not read, and the files it works on. -/
structure Session where
  lines : List (List UInt8)
  folder : Folder := {}

/-- A debugger that reads a script. -/
def Session.ofScript (script : List UInt8) (folder : Folder) : Session :=
  { lines := scriptLines script, folder }

/-- Lets the debugger look at a machine. -/
def Session.pause (s : Session) (m : Machine) : Pause :=
  (converse m s.folder s.lines).after (wordLine m m.pc) []

/-- The debugger after a pause. -/
def Pause.session (p : Pause) : Session := { lines := p.rest, folder := p.folder }

end ChipEight.Debugger
