import ChipEight.Debugger.Command
import ChipEight.Instruction.Written

/-!
# Showing and changing attributes

How the debugger writes the parts of a machine, and how it changes them. A change either succeeds,
or has a flaw and changes nothing.
-/

namespace ChipEight.Debugger

open Text

/-! ## Showing -/

/-- The line of the word at an address. -/
def wordLine (m : Machine) (a : UInt16) : String :=
  let w := m.ram.word a
  s!"${hexText 3 a.toNat}: {hexText 4 w.toNat}\t{disassemble w}\n"

/-- The register that waits for a key. -/
def awaitingText (m : Machine) : String :=
  match m.awaiting with
  | some x => s!"V{hexText 1 x.val}"
  | none => "-"

/-- The letters of the switches, or the word for none. -/
def switchesText (q : Switches) : String :=
  if q.letters.isEmpty then "None" else String.ofList q.letters

/-- A register with its name. -/
def registerText (m : Machine) (x : Fin 16) : String :=
  s!"V{hexText 1 x.val}: {hexText 2 (m.register x).toNat}"

/-- A flag register with its name. -/
def flagText (m : Machine) (x : Fin 8) : String :=
  s!"R{hexText 1 x.val}: {hexText 2 (m.flag x).toNat}"

/-- A place of the stack with its name. -/
def stackText (m : Machine) (n : Nat) : String :=
  match m.returns[n]? with
  | some a => s!"x{hexText 1 n}: ${hexText 3 a.toNat}"
  | none => s!"x{hexText 1 n}: -"

/-- The stack, two places to a line. -/
def stackLines (m : Machine) : String :=
  "Stack:\n" ++ String.join ((List.range 8).map fun n =>
    stackText m n ++ "\t\t" ++ stackText m (n + 8) ++ "\n")

/-- Everything except memory. -/
def overview (m : Machine) : String :=
  wordLine m m.pc ++
  s!"PC: {hexText 3 m.pc.toNat}\t\tSP: {hexText 2 m.depth.val}\n" ++
  s!"DT: {hexText 2 m.delay.toNat}\t\tST: {hexText 2 m.sound.toNat}\n" ++
  s!"I:  {hexText 3 m.index.toNat}\t\tK:  {awaitingText m}\n" ++
  s!"BG: {hexText 6 m.palette.background.toNat}\tFG: {hexText 6 m.palette.foreground.toNat}\n" ++
  s!"Quirks: {switchesText m.switches}\n" ++
  String.join ((List.finRange 8).map fun x =>
    registerText m (Machine.registerNumber x.val) ++ "\t\t" ++
      registerText m (Machine.registerNumber (x.val + 8)) ++ "\n") ++
  String.join ((List.finRange 4).map fun x =>
    flagText m (x.castLE (by decide)) ++ "\t\t" ++
      flagText m ((x.addNat 4).castLE (by decide)) ++ "\n") ++
  stackLines m

/-- The text that shows an attribute. -/
def Attribute.shown (m : Machine) : Attribute → String
  | .programCounter => s!"PC: {hexText 3 m.pc.toNat}\n"
  | .stackDepth => s!"SP: {hexText 2 m.depth.val}\n"
  | .delayTimer => s!"DT: {hexText 2 m.delay.toNat}\n"
  | .soundTimer => s!"ST: {hexText 2 m.sound.toNat}\n"
  | .index => s!"I:  {hexText 3 m.index.toNat}\n"
  | .awaiting => s!"VK: {awaitingText m}\n"
  | .background => s!"BG: {hexText 6 m.palette.background.toNat}\n"
  | .foreground => s!"FG: {hexText 6 m.palette.foreground.toNat}\n"
  | .switches => s!"Quirks: {switchesText m.switches}\n"
  | .smallFont => s!"SFONT: {m.fonts.small.name}\n"
  | .bigFont => s!"BFONT: {m.fonts.big.name}\n"
  | .register x => registerText m x ++ "\n"
  | .flag x => flagText m x ++ "\n"
  | .registers => String.join ((List.finRange 16).map fun x => registerText m x ++ "\n")
  | .flags => String.join ((List.finRange 8).map fun x => flagText m x ++ "\n")
  | .memory a => wordLine m a
  | .stack => stackLines m

/-! ## Changing -/

/-- Why an attribute was not changed. -/
inductive SetFlaw
  /-- The text is no number that the attribute can have. -/
  | badValue (text : String)
  /-- The attribute is only shown. -/
  | fixed
  /-- The text is no switches or no font. -/
  | rejected (failure : Failure)
  deriving DecidableEq, Repr

/-- The wording of a flaw. -/
def SetFlaw.message : SetFlaw → String
  | badValue text => s!"Invalid value '{text}'"
  | fixed => "Attribute can't be set"
  | rejected failure => failure.message

/-- Reads a value that is at most `max`. -/
def valueUpTo (max : Nat) (s : List Char) : Except SetFlaw Nat :=
  match numberUpTo? max s with
  | some n => .ok n
  | none => .error (.badValue (String.ofList s))

/-- The machine with an attribute changed to the value of a text. -/
def Attribute.change (m : Machine) (s : List Char) : Attribute → Except SetFlaw Machine
  | .programCounter => (valueUpTo maxAddress s).map fun n => { m with pc := UInt16.ofNat n }
  | .index => (valueUpTo 0xFFFF s).map fun n => { m with index := UInt16.ofNat n }
  | .stackDepth => (valueUpTo 16 s).map m.setDepth
  | .delayTimer => (valueUpTo 0xFF s).map fun n => { m with delay := UInt8.ofNat n }
  | .soundTimer => (valueUpTo 0xFF s).map fun n => { m with sound := UInt8.ofNat n }
  | .register x => (valueUpTo 0xFF s).map fun n => m.setRegister x (UInt8.ofNat n)
  | .flag x => (valueUpTo 0xFF s).map fun n => m.setFlag x (UInt8.ofNat n)
  | .memory a =>
    (valueUpTo 0xFF s).map fun n => { m with ram := m.ram.write a (UInt8.ofNat n) }
  | .background =>
    (valueUpTo maxColour s).map fun n =>
      m.setPalette { m.palette with background := UInt32.ofNat n }
  | .foreground =>
    (valueUpTo maxColour s).map fun n =>
      m.setPalette { m.palette with foreground := UInt32.ofNat n }
  | .switches =>
    match Switches.parse s with
    | .ok chosen => .ok { m with switches := chosen }
    | .error failure => .error (.rejected failure)
  | .smallFont =>
    match Fonts.parse s with
    | .ok fonts => .ok (m.setFonts { m.fonts with small := fonts.small })
    | .error failure => .error (.rejected failure)
  | .bigFont =>
    match Fonts.parse (',' :: s) with
    | .ok fonts => .ok (m.setFonts { m.fonts with big := fonts.big })
    | .error failure => .error (.rejected failure)
  | .awaiting | .stack | .registers | .flags => .error .fixed

end ChipEight.Debugger
