import ChipEight.Instruction.Form
import ChipEight.Machine.Sprite

/-!
# Execution

An instruction word is executed in three parts: the table names its operation, the dialect decides
whether the machine has it, and one rule per operation says what it does. A failing instruction
leaves no machine behind, so it changes nothing.

An arithmetic rule reads its operands first, stores the result next and the flag last. So the flag
wins where VF is the destination.
-/

namespace ChipEight

/-- How far the program counter moves after an instruction, beyond what its rule did. -/
inductive Advance
  /-- The rule set the program counter, or the instruction is not over. -/
  | stay
  /-- To the next instruction. -/
  | next
  deriving DecidableEq, Repr

/-- The distance that an advance covers. -/
def Advance.distance : Advance → UInt16
  | stay => 0
  | next => 2

namespace Machine

/-! ## Parts of rules -/

/-- Passes over the next instruction if a condition holds. -/
def skipIf (m : Machine) (condition : Bool) : Machine :=
  if condition then { m with pc := m.pc + 2 } else m

/-- Stores a result, then a flag. -/
def setWithFlag (m : Machine) (x : Fin 16) (b : UInt8) (flag : Bool) : Machine :=
  (m.setRegister x b).setRegister flagRegister (if flag then 1 else 0)

/-- Stores the result of a logic instruction, and clears VF if a switch says so. -/
def setLogic (m : Machine) (x : Fin 16) (b : UInt8) : Machine :=
  let m := m.setRegister x b
  if m.switches.clearFlag then m.setRegister flagRegister 0 else m

/-- The byte that a shift reads. -/
def shiftSource (m : Machine) (x y : Fin 16) : UInt8 :=
  if m.switches.shiftInPlace then m.register x else m.register y

/-- Adds a byte to a register; the flag is the carry. -/
def add (m : Machine) (x : Fin 16) (b : UInt8) : Machine :=
  m.setWithFlag x (m.register x + b) ((m.register x).toNat + b.toNat > 255)

/-- Stores a difference; the flag is on if nothing had to be borrowed. -/
def setDifference (m : Machine) (x : Fin 16) (a b : UInt8) : Machine :=
  m.setWithFlag x (a - b) (a ≥ b)

/-- Whether a register lies between two others, these included. -/
def isBetween (x y r : Fin 16) : Bool := (x ≤ r && r ≤ y) || (y ≤ r && r ≤ x)

/-- The registers from one to another, both included, in either direction. -/
def registerRange (x y : Fin 16) : List (Fin 16) :=
  let range := (List.finRange 16).filter (isBetween x y)
  if x ≤ y then range else range.reverse

/-- The number of steps between two registers. -/
def registerDistance (x y : Fin 16) : Nat := (x.val - y.val) + (y.val - x.val)

/-- Stores registers in memory one after another, from the index register on. -/
def storeList (m : Machine) (registers : List (Fin 16)) : Machine :=
  { m with ram := m.ram.writeAll m.index (registers.map fun r => m.register r) }

/-- Loads the registers between two from memory, the first of them from the index register. -/
def loadBetween (m : Machine) (x y : Fin 16) : Machine :=
  { m with
    v := Vector.ofFn fun r =>
      if isBetween x y r then
        m.ram.read (m.index + UInt16.ofNat (registerDistance x r))
      else m.register r }

/-- Loads the registers below one from memory, the first of them from the index register. -/
def loadBelow (m : Machine) (x : Fin 16) : Machine :=
  { m with
    v := Vector.ofFn fun r =>
      if r < x then m.ram.read (m.index + UInt16.ofNat r.val) else m.register r }

/-- Moves the index register after registers below `x` were stored or loaded, if a switch says
so. -/
def moveIndex (m : Machine) (x : Fin 16) : Machine :=
  if m.switches.moveIndex then { m with index := m.index + UInt16.ofNat (x.val + 1) } else m

/-- The registers below one. -/
def registersBelow (x : Fin 16) : List (Fin 16) := (List.finRange 16).filter (· < x)

/-- Copies the registers below `x` to the flag registers, as far as these reach. -/
def keepFlags (m : Machine) (x : Fin 16) : Machine :=
  { m with
    flags := Vector.ofFn fun r =>
      if r.val < x.val then m.v.get (r.castLE (by decide)) else m.flag r }

/-- Copies the flag registers to the registers below `x`, as far as they reach. -/
def recallFlags (m : Machine) (x : Fin 16) : Machine :=
  { m with
    v := Vector.ofFn fun r =>
      if h : r.val < 8 ∧ r.val < x.val then m.flags.get ⟨r.val, h.1⟩ else m.register r }

/-- Stores the three decimal digits of a byte from the index register on. -/
def storeDecimal (m : Machine) (b : UInt8) : Machine :=
  let n := b.toNat
  { m with
    ram := m.ram.writeAll m.index
      [UInt8.ofNat (n / 100), UInt8.ofNat (n / 10 % 10), UInt8.ofNat (n % 10)] }

/-- Changes the screen and asks for it to be drawn. -/
def changeScreen (m : Machine) (screen : Raster) : Machine := { m with screen, redraw := true }

/-! ## One rule per operation -/

/-- Performs an operation. -/
def perform (m : Machine) (o : Operands) : Operation → Except Fault (Advance × Machine)
  | .clearScreen => .ok (.next, m.changeScreen m.screen.clear)
  | .ret =>
    if h : m.depth.val = 0 then .error (.stackUnderflow m.pc)
    else
      let top : Fin 16 := ⟨m.depth.val - 1, by omega⟩
      .ok (.stay, { m with depth := top.castSucc, pc := m.stack[top] })
  | .scrollDown => .ok (.next, m.changeScreen (m.screen.scrollDown o.low.val))
  | .scrollUp => .ok (.next, m.changeScreen (m.screen.scrollUp o.low.val))
  | .scrollRight => .ok (.next, m.changeScreen (m.screen.scrollRight 4))
  | .scrollLeft => .ok (.next, m.changeScreen (m.screen.scrollLeft 4))
  | .exit => .ok (.stay, m.halt)
  | .lowResolution => .ok (.next, m.changeScreen { m.screen with resolution := .standard })
  | .highResolution => .ok (.next, m.changeScreen { m.screen with resolution := .extended })
  | .jump => .ok (.stay, { m with pc := o.address })
  | .call =>
    if h : m.depth.val < 16 then
      .ok (.stay, { m with
        stack := m.stack.set m.depth.val (m.pc + 2)
        depth := Fin.succ ⟨m.depth.val, h⟩
        pc := o.address })
    else .error (.stackOverflow m.pc)
  | .skipIfByte => .ok (.next, m.skipIf (m.register o.x == o.byte))
  | .skipUnlessByte => .ok (.next, m.skipIf (m.register o.x != o.byte))
  | .skipIfRegister => .ok (.next, m.skipIf (m.register o.x == m.register o.y))
  | .saveRange => .ok (.next, m.storeList (registerRange o.x o.y))
  | .loadRange => .ok (.next, m.loadBetween o.x o.y)
  | .setByte => .ok (.next, m.setRegister o.x o.byte)
  | .addByte => .ok (.next, m.add o.x o.byte)
  | .copyRegister => .ok (.next, m.setRegister o.x (m.register o.y))
  | .orRegister => .ok (.next, m.setLogic o.x (m.register o.x ||| m.register o.y))
  | .andRegister => .ok (.next, m.setLogic o.x (m.register o.x &&& m.register o.y))
  | .xorRegister => .ok (.next, m.setLogic o.x (m.register o.x ^^^ m.register o.y))
  | .addRegister => .ok (.next, m.add o.x (m.register o.y))
  | .subtract => .ok (.next, m.setDifference o.x (m.register o.x) (m.register o.y))
  | .shiftRight =>
    let b := m.shiftSource o.x o.y
    .ok (.next, m.setWithFlag o.x (b >>> 1) (b.toNat % 2 = 1))
  | .subtractFrom => .ok (.next, m.setDifference o.x (m.register o.y) (m.register o.x))
  | .shiftLeft =>
    let b := m.shiftSource o.x o.y
    .ok (.next, m.setWithFlag o.x (b <<< 1) (b.toNat ≥ 128))
  | .skipUnlessRegister => .ok (.next, m.skipIf (m.register o.x != m.register o.y))
  | .setIndex => .ok (.next, { m with index := o.address })
  | .jumpOffset =>
    let x := if m.switches.jumpByDigit then o.x else registerNumber 0
    .ok (.stay, { m with pc := o.address + (m.register x).toUInt16 })
  | .random =>
    let (b, noise) := m.noise.next
    .ok (.next, { m.setRegister o.x (b &&& o.byte) with noise })
  | .drawSprite => .ok (.next, m.drawSprite o.x o.y o.low)
  | .skipIfKey => .ok (.next, m.skipIf (m.key (m.register o.x)))
  | .skipUnlessKey => .ok (.next, m.skipIf (!m.key (m.register o.x)))
  | .readDelay => .ok (.next, m.setRegister o.x m.delay)
  | .readKey =>
    match m.pressedKey with
    | some k => .ok (.next, m.setRegister o.x (UInt8.ofNat k.val))
    | none => .ok (.stay, { m with awaiting := some o.x })
  | .setDelay => .ok (.next, { m with delay := m.register o.x })
  | .setSound => .ok (.next, { m with sound := m.register o.x })
  | .addIndex => .ok (.next, { m with index := m.index + (m.register o.x).toUInt16 })
  | .smallGlyph =>
    .ok (.next, { m with
      index := UInt16.ofNat (Ram.smallGlyphs + Glyph.smallSize * ((m.register o.x).toNat % 16)) })
  | .bigGlyph =>
    .ok (.next, { m with
      index := UInt16.ofNat (Ram.bigGlyphs + Glyph.bigSize * ((m.register o.x).toNat % 16)) })
  | .storeDecimal => .ok (.next, m.storeDecimal (m.register o.x))
  | .storeRegisters => .ok (.next, (m.storeList (registersBelow o.x)).moveIndex o.x)
  | .loadRegisters => .ok (.next, (m.loadBelow o.x).moveIndex o.x)
  | .storeFlags => .ok (.next, m.keepFlags o.x)
  | .loadFlags => .ok (.next, m.recallFlags o.x)

/-! ## Words and steps -/

/-- Executes an instruction word, without the advance that follows it. -/
def execute (m : Machine) (w : UInt16) : Except Fault (Advance × Machine) :=
  match (Form.find? w).filter fun f => f.dialect ≤ m.dialect with
  | none => .error (.invalidInstruction w m.pc)
  | some form => m.perform (Operands.ofWord w) form.operation

/-- Executes the instruction under the program counter, and advances. -/
def step (m : Machine) : Except Fault (Advance × Machine) :=
  match m.execute m.currentWord with
  | .error fault => .error fault
  | .ok (advance, m) => .ok (advance, { m with pc := m.pc + advance.distance })

end Machine
end ChipEight
