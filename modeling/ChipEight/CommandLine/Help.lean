import ChipEight.CommandLine.Grammar

/-!
# Help

The texts that every command writes on request: what it does and takes, one line to an option, and
its version.
-/

namespace ChipEight.CommandLine

/-- The name of the value of an option. -/
def valueName (word : String) : String :=
  word.map fun c => if c = '-' then '_' else c.toUpper

/-- An option as it is written on a command line. -/
def Choice.form {α : Type} (choice : Choice α) : String :=
  let bare := s!"-{choice.letter}, --{choice.word}"
  match choice.kind with
  | .nothing => bare
  | _ => bare ++ s!" <{valueName choice.word}>"

/-- What an option is for. -/
def Choice.purpose {α : Type} (choice : Choice α) : String :=
  match choice.preset with
  | some text => s!"{choice.about} [default: {text}]"
  | none => choice.about

/-- The lines of a table of two columns. -/
def tableLines (rows : List (String × String)) : String :=
  let width := (rows.map fun row => row.1.length).foldl max 0
  String.join (rows.map fun row =>
    "  " ++ row.1 ++ String.ofList (List.replicate (width - row.1.length) ' ') ++ "  " ++
      row.2 ++ "\n")

/-- The options of a command with their purposes. -/
def Command.rows {α : Type} (command : Command α) : List (String × String) :=
  command.choices.map (fun choice => (choice.form, choice.purpose)) ++
    [("-h, --help", "Print help"), ("-V, --version", "Print version")]

/-- The help of a command. -/
def Command.help {α : Type} (command : Command α) : String :=
  let operand := s!"<{command.operand}>"
  s!"{command.about}\n\nUsage: {command.name} [OPTIONS] {operand}\n\n" ++
    "Arguments:\n" ++ tableLines [(operand, command.operandAbout)] ++
    "\nOptions:\n" ++ tableLines command.rows

/-- The line that tells the version. It is the same for all commands. -/
def versionLine : String := "chip8vm 0.1.0\n"

end ChipEight.CommandLine
