import ChipEight.CommandLine.Help
import ChipEight.Folder
import ChipEight.Source.Assembly
import ChipEight.Source.Listing

/-!
# The assembler and the lister as commands

Each tool reads one file and writes one, or the standard output. A tool that fails writes no file.
-/

namespace ChipEight.CommandLine

/-- What a tool leaves behind. -/
structure ToolResult where
  /-- 0 after success, 1 after a failure, 2 for a wrong command line. -/
  exit : Nat
  folder : Folder
  /-- What stands on the standard output. -/
  written : String := ""
  notices : List Notice := []
  /-- Why the tool failed, if it did. -/
  failure : Option Failure := none

/-- Does what a command line asks for, unless it is refused. -/
def Command.perform {α : Type} [DecidableEq α] (command : Command α) (folder : Folder)
    (args : List String) (work : Reading α → Except Failure ToolResult) : ToolResult :=
  match command.read args with
  | .error .usage => { exit := 2, folder }
  | .error .help => { exit := 0, folder, written := command.help }
  | .error .version => { exit := 0, folder, written := versionLine }
  | .ok reading =>
    match work reading with
    | .ok result => result
    | .error failure => { exit := 1, folder, failure := some failure }

/-! ## The assembler -/

/-- The options of the assembler. -/
inductive AssemblerKey
  | verbose
  | output
  deriving DecidableEq, Repr

/-- Where the assembler writes unless told otherwise. -/
def defaultOutput : String := "a.c8"

/-- The assembler. -/
def assembler : Command AssemblerKey where
  name := "c8as"
  about := "assemble CHIP-8 source into a ROM"
  operand := "FILE"
  operandAbout := "assembly source"
  choices :=
    [{ key := .verbose, letter := 'v', word := "verbose"
       about := "log every instruction as it is encoded" },
     { key := .output, letter := 'o', word := "output", kind := .path
       about := "where to write the ROM", preset := some defaultOutput }]

/-- Assembles the file of a command line. -/
def assembleFile (folder : Folder) (reading : Reading AssemblerKey) :
    Except Failure ToolResult := do
  let source ← folder.readSource reading.path
  let assembled ← assemble (String.ofList source)
  let path := ((reading.value? .output).map String.ofList).getD defaultOutput
  let folder ← (folder.write path assembled.program).mapError .io
  let notices := assembled.notices ++ [.programWritten assembled.program.length path]
  return { exit := 0, folder, notices := if reading.has .verbose then notices else [] }

/-- Runs the assembler. -/
def runAssembler (folder : Folder) (args : List String) : ToolResult :=
  assembler.perform folder args (assembleFile folder)

/-! ## The lister -/

/-- The options of the lister. -/
inductive ListerKey
  | labels
  | addresses
  | output
  deriving DecidableEq, Repr

/-- The lister. -/
def lister : Command ListerKey where
  name := "c8dis"
  about := "list a CHIP-8 ROM as assembly"
  operand := "ROM"
  operandAbout := "ROM to disassemble"
  choices :=
    [{ key := .labels, letter := 'l', word := "labels"
       about := "replace jump, call and LD I targets with generated labels" },
     { key := .addresses, letter := 'a', word := "addresses"
       about := "prefix each line with its address" },
     { key := .output, letter := 'o', word := "output", kind := .path
       about := "write the listing here instead of stdout" }]

/-- Lists the file of a command line. -/
def listFile (folder : Folder) (reading : Reading ListerKey) : Except Failure ToolResult := do
  let program ← folder.readFile reading.path
  if maxProgramSize < program.length then
    throw (.misfit (.tooLarge program.length maxProgramSize))
  let text := listing ⟨reading.has .addresses, reading.has .labels⟩ program
  match reading.value? .output with
  | some path =>
    let folder ← (folder.write (String.ofList path) (Text.toUtf8 text.toList)).mapError .io
    return { exit := 0, folder }
  | none => return { exit := 0, folder, written := text }

/-- Runs the lister. -/
def runLister (folder : Folder) (args : List String) : ToolResult :=
  lister.perform folder args (listFile folder)

end ChipEight.CommandLine
