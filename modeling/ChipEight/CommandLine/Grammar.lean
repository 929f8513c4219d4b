import ChipEight.Text.Letters
import ChipEight.Text.Numeral
import ChipEight.Text.Pieces

/-!
# Command lines

A command has options and one operand. An option has a letter and a word; it may stand anywhere,
once, and either takes no value or takes one.

* `-d`, `-v`, `-dv`: letters without values may share an item;
* `-c5`, `-c=5`, `-c 5`: what follows a letter in its item is its value, else the next item is;
* `--word`, `--word=value`, `--word value`: the same for words;
* an item that starts with `-` is no value, except `-` alone;
* everything after `--` is the operand.

Every command answers to `-h`, `--help`, `-V` and `--version`. A command line is read from left to
right, and the first thing that is wrong with it or that asks for a text decides.

## Termination

Reading recurses on the items that are left, and inside an item on the letters that are left.
-/

namespace ChipEight.CommandLine

open Text

/-! ## Commands -/

/-- What an option takes. -/
inductive Kind
  /-- No value at all. -/
  | nothing
  /-- Any text. -/
  | text
  /-- A text that is not empty. -/
  | path
  /-- A number of at most 32 bits. -/
  | count
  deriving DecidableEq, Repr

/-- An option of a command, under the key by which the command knows it. -/
structure Choice (α : Type) where
  key : α
  letter : Char
  word : String
  kind : Kind := .nothing
  about : String
  /-- The value that counts without the option, as far as the help tells it. -/
  preset : Option String := none

/-- A command with its options and its operand, which is a path. -/
structure Command (α : Type) where
  name : String
  about : String
  choices : List (Choice α)
  operand : String
  operandAbout : String

/-- What a letter or a word stands for. -/
inductive Meaning (α : Type)
  | own (choice : Choice α)
  | help
  | version

/-- What a letter stands for. -/
def Command.ofLetter? {α : Type} (command : Command α) (letter : Char) : Option (Meaning α) :=
  match command.choices.find? fun choice => choice.letter == letter with
  | some choice => some (.own choice)
  | none =>
    if letter = 'h' then some .help else if letter = 'V' then some .version else none

/-- What a word stands for. -/
def Command.ofWord? {α : Type} (command : Command α) (word : List Char) : Option (Meaning α) :=
  match command.choices.find? fun choice => choice.word.toList == word with
  | some choice => some (.own choice)
  | none =>
    if word = "help".toList then some .help
    else if word = "version".toList then some .version
    else none

/-! ## Items -/

/-- A part of a command line. -/
inductive Part (α : Type)
  /-- An option with the text of its value; the text is empty if the option takes none. -/
  | choice (choice : Choice α) (value : List Char)
  | operand (text : List Char)
  | help
  | version
  | malformed

/-- A value that stands in the item of its letter, perhaps after `=`. -/
def withoutEquals : List Char → List Char
  | '=' :: value => value
  | value => value

/-- The parts that the letters of an item are, and the option that still wants a value. -/
def Command.partsOfLetters {α : Type} (command : Command α) :
    List Char → List (Part α) × Option (Choice α)
  | [] => ([], none)
  | letter :: rest =>
    match command.ofLetter? letter with
    | none => ([.malformed], none)
    | some .help => ([.help], none)
    | some .version => ([.version], none)
    | some (.own choice) =>
      if choice.kind = .nothing then
        let (parts, waiting) := partsOfLetters command rest
        (.choice choice [] :: parts, waiting)
      else if rest.isEmpty then ([], some choice)
      else ([.choice choice (withoutEquals rest)], none)

/-- The part that a word is, with the value after `=` if there is one. -/
def Command.partsOfWord {α : Type} (command : Command α) (word : List Char)
    (value : Option (List Char)) : List (Part α) × Option (Choice α) :=
  match command.ofWord? word, value with
  | some .help, none => ([.help], none)
  | some .version, none => ([.version], none)
  | some (.own choice), none =>
    if choice.kind = .nothing then ([.choice choice []], none) else ([], some choice)
  | some (.own choice), some value =>
    if choice.kind = .nothing then ([.malformed], none) else ([.choice choice value], none)
  | _, _ => ([.malformed], none)

/-- The parts that an item is, and the option that wants the next item as its value. -/
def Command.partsOfItem {α : Type} (command : Command α) :
    List Char → List (Part α) × Option (Choice α)
  | '-' :: '-' :: word =>
    match cutAt '=' word with
    | some (word, value) => command.partsOfWord word (some value)
    | none => command.partsOfWord word none
  | '-' :: letter :: rest => command.partsOfLetters (letter :: rest)
  | text => ([.operand text], none)

/-- Whether an item can be a value. -/
def isValue : List Char → Bool
  | '-' :: _ :: _ => false
  | _ => true

/-- The parts of a command line, up to the first malformed one. -/
def Command.parts {α : Type} (command : Command α) : List (List Char) → List (Part α)
  | [] => []
  | item :: rest =>
    if item = ['-', '-'] then rest.map .operand
    else
      match command.partsOfItem item with
      | (found, none) => found ++ parts command rest
      | (found, some choice) =>
        match rest with
        | value :: more =>
          if isValue value then found ++ .choice choice value :: parts command more
          else found ++ [.malformed]
        | [] => found ++ [.malformed]

/-! ## Reading -/

/-- Why a command does not start. -/
inductive Refusal
  /-- The command line is wrong. -/
  | usage
  /-- The help was asked for. -/
  | help
  /-- The version was asked for. -/
  | version
  deriving DecidableEq, Repr

/-- The value of a numeral in decimal, after an optional sign. -/
def signed? : List Char → Option Int
  | '-' :: digits => (digitsValue? 10 digits).map fun n => -(n : Int)
  | s => (unsigned? 10 s).map Int.ofNat

/-- The number that an option takes. -/
def count? (s : List Char) : Option Nat :=
  match signed? s with
  | some n => if 0 ≤ n ∧ n < 0x100000000 then some n.toNat else none
  | none => none

/-- Whether an option takes a text. -/
def Kind.admits (s : List Char) : Kind → Bool
  | nothing => s.isEmpty
  | text => true
  | path => !s.isEmpty
  | count => (count? s).isSome

/-- What was read of a command line. -/
structure Taken (α : Type) where
  /-- The options with their values, the latest first. -/
  values : List (α × List Char) := []
  operand : Option (List Char) := none

variable {α : Type} [DecidableEq α]

namespace Taken

/-- The value of an option that was given. -/
def value? (taken : Taken α) (key : α) : Option (List Char) := taken.values.lookup key

/-- Whether an option was given. -/
def has (taken : Taken α) (key : α) : Bool := (taken.value? key).isSome

/-- What was read with one more part. -/
def add (taken : Taken α) : Part α → Except Refusal (Taken α)
  | .choice choice value =>
    if taken.has choice.key || !choice.kind.admits value then .error .usage
    else .ok { taken with values := (choice.key, value) :: taken.values }
  | .operand text =>
    if taken.operand.isSome || text.isEmpty then .error .usage
    else .ok { taken with operand := some text }
  | .help => .error .help
  | .version => .error .version
  | .malformed => .error .usage

end Taken

/-- A command line that was read to its end: the options and the operand. -/
structure Reading (α : Type) extends Taken α where
  path : String

/-- Reads a command line. -/
def Command.read (command : Command α) (args : List String) : Except Refusal (Reading α) := do
  let taken ← (command.parts (args.map String.toList)).foldlM Taken.add {}
  match taken.operand with
  | some path => return { taken with path := String.ofList path }
  | none => throw .usage

end ChipEight.CommandLine
