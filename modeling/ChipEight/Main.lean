import ChipEight.CommandLine.Player
import ChipEight.CommandLine.Tools
import ChipEight.Machine.Canvas
import ChipEight.Run.Rehearsal

/-!
# The program

One executable holds the player and both tools. Its first argument names a tool; without one the
player runs. Files are those of the current folder. The player shows each new screen as text, and
takes the commands of its debugger from the standard input before the run; it has no keypad.
-/

namespace ChipEight

open CommandLine

/-! ## Files -/

/-- The bytes of the largest file that is looked at. -/
def largestFile : Nat := 0x100000

/-- The files of the current folder. -/
def currentFolder : IO Folder := do
  let mut files := []
  for entry in ← (← IO.currentDir).readDir do
    let data ← entry.path.metadata
    if data.type == .file && data.byteSize.toNat ≤ largestFile then
      let bytes ← IO.FS.readBinFile entry.path
      files := (entry.fileName, bytes.data.toList) :: files
  return { files }

/-- Writes the files that are new or changed. -/
def keepChanges (before after : Folder) : IO Unit := do
  for (name, bytes) in after.files do
    if before.files.lookup name != some bytes then
      IO.FS.writeBinFile name ⟨bytes.toArray⟩

/-! ## Messages -/

/-- Writes a notice, if it is important enough. -/
def tell (verbose : Bool) (n : Notice) : IO Unit := do
  if verbose || n.level != .info then
    IO.eprintln s!"{n.level.name} {n.message}"

/-- Writes why the program ends early, and gives the exit code for it. -/
def giveUp (failure : Failure) : IO UInt32 := do
  IO.eprintln s!"Error: {failure.message}"
  return 1

/-- Does what a refused command line asks for, and gives the exit code for it. -/
def refuse {α : Type} (command : Command α) : Refusal → IO UInt32
  | .usage => do
    IO.eprint command.help
    return 2
  | .help => do
    IO.print command.help
    return 0
  | .version => do
    IO.print versionLine
    return 0

/-! ## Tools -/

/-- Runs a tool on the current folder. -/
def runTool (tool : Folder → List String → ToolResult) (args : List String) : IO UInt32 := do
  let before ← currentFolder
  let result := tool before args
  result.notices.forM (tell true)
  IO.print result.written
  keepChanges before result.folder
  match result.failure with
  | some failure => giveUp failure
  | none => return UInt32.ofNat result.exit

/-! ## The player -/

/-- Shows what a tick did. -/
def showHappening (verbose : Bool) : Happening → IO Unit
  | .notice n => tell verbose n
  | .drawn screen _ => IO.print ("\x1b[H\x1b[2J" ++ screen.picture)
  | .beep => IO.print "\x07"
  | .stop | .invalidated | .paused _ _ => return

/-- Ticks at the clock's pace until the machine halts or a tick fails. -/
partial def play (l : Loop) (r : Rehearsal) : IO (Option Failure × Loop × Rehearsal) := do
  let (o, r) := r.fresh.tick l
  IO.print r.written
  r.happenings.forM (showHappening l.verbose)
  match o.result with
  | .error cause => return (some cause, o.loop, r)
  | .ok .halted => return (none, o.loop, r)
  | .ok _ =>
    IO.sleep (UInt32.ofNat (1000 / l.clock))
    play o.loop r

/-- The files after a run. -/
def folderAfter (before : Folder) (r : Rehearsal) : Folder :=
  match r.attendant with
  | .session s => s.folder
  | _ => before

/-- Plays a program. -/
def runPlayer (args : List String) : IO UInt32 := do
  let before ← currentFolder
  let seed ← IO.rand 0 0xFFFFFFFFFFFFFFFF
  match setUp (UInt64.ofNat seed) before args with
  | .error (.refused refusal) => refuse player refusal
  | .error (.failed failure) => giveUp failure
  | .ok setup =>
    match setup.loaded with
    | .error failure => giveUp failure
    | .ok size =>
      tell setup.settings.verbose (.programLoaded size)
      let script ← if setup.settings.debug then (← IO.getStdin).readToEnd else pure ""
      let l := Loop.configure { machine := setup.machine } setup.settings
      tell l.verbose l.opening
      let session := Debugger.Session.ofScript (Text.toUtf8 script.toList) before
      let (failure, l, r) ← play l { attendant := .session session }
      keepChanges before (folderAfter before r)
      match failure with
      | some failure => giveUp failure
      | none =>
        tell l.verbose (.halted l.machine.pc)
        return 0

end ChipEight

open ChipEight in
/-- Runs the tool that the first argument names, or the player. -/
def main (args : List String) : IO UInt32 :=
  match args with
  | [] => runPlayer []
  | first :: rest =>
    if first = CommandLine.assembler.name then runTool CommandLine.runAssembler rest
    else if first = CommandLine.lister.name then runTool CommandLine.runLister rest
    else runPlayer args
