import ChipEight.Machine.Step
import ChipEight.Proofs.Bare.Screen

/-!
# Execution over bare storage

The machine over bare storage, and one rule per operation as a program for it: every register, key,
stack place and memory cell is looked up in an array, and every sum that must not overflow is
checked.
-/

namespace ChipEight.Bare

/-! ## The state -/

/-- A machine without the promises of its types. -/
structure State where
  memory : Array UInt8
  v : Array UInt8
  flags : Array UInt8
  index : UInt16
  pc : UInt16
  depth : Nat
  stack : Array UInt16
  delay : UInt8
  sound : UInt8
  keys : Array Bool
  awaiting : Option Nat
  screen : Screen
  running : Bool
  redraw : Bool
  switches : Switches
  dialect : Dialect
  fonts : Fonts
  palette : Palette
  breakpoints : AddressSet
  noise : Noise

namespace State

/-! ## Memory and registers -/

/-- The byte at an address, of which the low twelve bits count. -/
def read (s : State) (a : UInt16) : Option UInt8 := s.memory[a.toNat % 4096]?

def write (s : State) (a : UInt16) (b : UInt8) : Option State := do
  let memory ← poke s.memory (a.toNat % 4096) b
  pure { s with memory }

/-- The word at an address. -/
def word (s : State) (a : UInt16) : Option UInt16 := do
  let high ← s.read a
  let low ← s.read (a + 1)
  pure (joinBytes high low)

def setRegister (s : State) (x : Nat) (b : UInt8) : Option State := do
  let v ← poke s.v x b
  pure { s with v }

def setWithFlag (s : State) (x : Nat) (b : UInt8) (flag : Bool) : Option State := do
  let s ← s.setRegister x b
  s.setRegister 15 (if flag then 1 else 0)

def setLogic (s : State) (x : Nat) (b : UInt8) : Option State := do
  let s ← s.setRegister x b
  if s.switches.clearFlag then s.setRegister 15 0 else pure s

def shiftSource (s : State) (x y : Nat) : Option UInt8 :=
  if s.switches.shiftInPlace then s.v[x]? else s.v[y]?

def skipIf (s : State) (condition : Bool) : State :=
  if condition then { s with pc := s.pc + 2 } else s

def changeScreen (s : State) (screen : Screen) : State := { s with screen, redraw := true }

/-! ## Runs of registers -/

def registerRange (x y : Nat) : Option (List Nat) :=
  (List.range ((x - y) + (y - x) + 1)).mapM fun n =>
    if x ≤ y then sum 64 x n else difference x n

/-- Stores registers one after another, the first of them `n` cells behind the index register. -/
def storeFrom (s : State) (n : Nat) : List Nat → Option State
  | [] => some s
  | r :: rest => do
    let s ← s.write (s.index + UInt16.ofNat n) (← s.v[r]?)
    s.storeFrom (n + 1) rest

/-- Loads registers one after another, the first of them from `n` cells behind the index
register. -/
def loadFrom (s : State) (n : Nat) : List Nat → Option State
  | [] => some s
  | r :: rest => do
    let s ← s.setRegister r (← s.read (s.index + UInt16.ofNat n))
    s.loadFrom (n + 1) rest

/-- Moves the index register behind the registers up to `x`, if a switch says so. -/
def moveIndex (s : State) (x : Nat) : Option State :=
  if s.switches.moveIndex then do
    let distance ← sum 16 x 1
    pure { s with index := s.index + UInt16.ofNat distance }
  else pure s

/-! ## Sprites -/

def spriteRow (s : State) (wide : Bool) (r : Nat) : Option UInt16 :=
  if wide then do
    let offset ← product 16 2 r
    s.word (s.index + UInt16.ofNat offset)
  else do
    let high ← s.read (s.index + UInt16.ofNat r)
    pure (joinBytes high 0)

/-- Whether a bit is set, counted from the left; a word has no more than sixteen. -/
def bit (bits : UInt16) (c : Nat) : Option Bool :=
  if c < 16 then some (bits.toNat.testBit (15 - c)) else none

/-- Flips the pixels under the bits of a row, unless they are clipped. -/
def drawBits (clip : Bool) (bits : UInt16) (x y r : Nat) (hit : Bool) (screen : Screen) :
    List Nat → Option (Bool × Screen)
  | [] => some (hit, screen)
  | c :: rest => do
    if ← bit bits c then
      let px ← sum 64 x c
      let py ← sum 64 y r
      if clip && (screen.width ≤ px || screen.height ≤ py) then
        drawBits clip bits x y r hit screen rest
      else
        let (was, screen) ← screen.toggle (px % screen.width) (py % screen.height)
        drawBits clip bits x y r (hit || was) screen rest
    else drawBits clip bits x y r hit screen rest

/-- Draws the rows of a sprite one after another. -/
def drawRows (s : State) (wide : Bool) (x y : Nat) (hit : Bool) (screen : Screen) :
    List Nat → Option (Bool × Screen)
  | [] => some (hit, screen)
  | r :: rest => do
    let bits ← s.spriteRow wide r
    let (hit, screen) ← drawBits s.switches.clipSprites bits x y r hit screen
      (List.range (if wide then 16 else 8))
    s.drawRows wide x y hit screen rest

def drawSprite (s : State) (a b : UInt8) (n : Nat) : Option State := do
  let s ← s.setRegister 15 0
  let wide := n == 0 && s.screen.resolution == .extended
  let (hit, screen) ← s.drawRows wide (a.toNat % s.screen.width) (b.toNat % s.screen.height)
    false s.screen (List.range (if wide then 16 else n))
  let s ← s.setRegister 15 (if hit then 1 else 0)
  pure { s with screen, redraw := true }

/-! ## One rule per operation -/

/-- What an instruction answers, and the machine after it. -/
abbrev Answer := Except Fault UInt16 × State

/-- The instruction is over. -/
def next (s : State) : Option Answer := some (.ok 2, s)

/-- The program counter stays where the rule left it. -/
def stay (s : State) : Option Answer := some (.ok 0, s)

/-- Performs an operation with registers `x` and `y`, a digit, a byte and an address. -/
def perform (s : State) (x y low : Nat) (byte : UInt8) (address : UInt16) :
    Operation → Option Answer
  | .clearScreen => next (s.changeScreen s.screen.clear)
  | .ret =>
    if s.depth = 0 then some (.error (.stackUnderflow s.pc), s)
    else do
      let depth ← difference s.depth 1
      let pc ← s.stack[depth]?
      stay { s with depth, pc }
  | .scrollDown => do next (s.changeScreen (← s.screen.scrollDown low))
  | .scrollUp => do next (s.changeScreen (← s.screen.scrollUp low))
  | .scrollRight => do next (s.changeScreen (← s.screen.scrollRight 4))
  | .scrollLeft => do next (s.changeScreen (← s.screen.scrollLeft 4))
  | .exit => stay { s with running := false }
  | .lowResolution => next (s.changeScreen { s.screen with resolution := .standard })
  | .highResolution => next (s.changeScreen { s.screen with resolution := .extended })
  | .jump => stay { s with pc := address }
  | .call =>
    if 16 ≤ s.depth then some (.error (.stackOverflow s.pc), s)
    else do
      let stack ← poke s.stack s.depth (s.pc + 2)
      let depth ← sum 64 s.depth 1
      stay { s with stack, depth, pc := address }
  | .skipIfByte => do next (s.skipIf ((← s.v[x]?) == byte))
  | .skipUnlessByte => do next (s.skipIf ((← s.v[x]?) != byte))
  | .skipIfRegister => do next (s.skipIf ((← s.v[x]?) == (← s.v[y]?)))
  | .saveRange => do next (← s.storeFrom 0 (← registerRange x y))
  | .loadRange => do next (← s.loadFrom 0 (← registerRange x y))
  | .setByte => do next (← s.setRegister x byte)
  | .addByte => do
    let a ← s.v[x]?
    next (← s.setWithFlag x (a + byte) (a.toNat + byte.toNat > 255))
  | .copyRegister => do next (← s.setRegister x (← s.v[y]?))
  | .orRegister => do next (← s.setLogic x ((← s.v[x]?) ||| (← s.v[y]?)))
  | .andRegister => do next (← s.setLogic x ((← s.v[x]?) &&& (← s.v[y]?)))
  | .xorRegister => do next (← s.setLogic x ((← s.v[x]?) ^^^ (← s.v[y]?)))
  | .addRegister => do
    let a ← s.v[x]?
    let b ← s.v[y]?
    next (← s.setWithFlag x (a + b) (a.toNat + b.toNat > 255))
  | .subtract => do
    let a ← s.v[x]?
    let b ← s.v[y]?
    next (← s.setWithFlag x (a - b) (a ≥ b))
  | .shiftRight => do
    let a ← s.shiftSource x y
    next (← s.setWithFlag x (a >>> 1) (a.toNat % 2 = 1))
  | .subtractFrom => do
    let a ← s.v[x]?
    let b ← s.v[y]?
    next (← s.setWithFlag x (b - a) (b ≥ a))
  | .shiftLeft => do
    let a ← s.shiftSource x y
    next (← s.setWithFlag x (a <<< 1) (a.toNat ≥ 128))
  | .skipUnlessRegister => do next (s.skipIf ((← s.v[x]?) != (← s.v[y]?)))
  | .setIndex => next { s with index := address }
  | .jumpOffset => do
    let a ← s.v[if s.switches.jumpByDigit then x else 0]?
    stay { s with pc := address + a.toUInt16 }
  | .random => do
    let (b, noise) := s.noise.next
    let s ← s.setRegister x (b &&& byte)
    next { s with noise }
  | .drawSprite => do next (← s.drawSprite (← s.v[x]?) (← s.v[y]?) low)
  | .skipIfKey => do next (s.skipIf (← s.keys[(← s.v[x]?).toNat % 16]?))
  | .skipUnlessKey => do next (s.skipIf (!(← s.keys[(← s.v[x]?).toNat % 16]?)))
  | .readDelay => do next (← s.setRegister x s.delay)
  | .readKey =>
    match s.keys.findIdx? id with
    | some k => do next (← s.setRegister x (UInt8.ofNat k))
    | none => stay { s with awaiting := some x }
  | .setDelay => do next { s with delay := ← s.v[x]? }
  | .setSound => do next { s with sound := ← s.v[x]? }
  | .addIndex => do next { s with index := s.index + (← s.v[x]?).toUInt16 }
  | .smallGlyph => do
    let offset ← product 16 ((← s.v[x]?).toNat % 16) Glyph.smallSize
    next { s with index := UInt16.ofNat (← sum 16 Ram.smallGlyphs offset) }
  | .bigGlyph => do
    let offset ← product 16 ((← s.v[x]?).toNat % 16) Glyph.bigSize
    next { s with index := UInt16.ofNat (← sum 16 Ram.bigGlyphs offset) }
  | .storeDecimal => do
    let n := (← s.v[x]?).toNat
    let s ← s.write s.index (UInt8.ofNat (n / 100))
    let s ← s.write (s.index + 1) (UInt8.ofNat (n / 10 % 10))
    next (← s.write (s.index + 2) (UInt8.ofNat (n % 10)))
  | .storeRegisters => do
    let s ← s.storeFrom 0 (List.range x)
    next (← s.moveIndex x)
  | .loadRegisters => do
    let s ← s.loadFrom 0 (List.range x)
    next (← s.moveIndex x)
  | .storeFlags => do
    let flags ← splice s.flags 0 (← slice s.v (min x 8))
    next { s with flags }
  | .loadFlags => do
    let v ← splice s.v 0 (← slice s.flags (min x 8))
    next { s with v }

/-! ## Words and steps -/

def execute (s : State) (w : UInt16) : Option Answer :=
  match (Form.find? w).filter fun f => f.dialect ≤ s.dialect with
  | none => some (.error (.invalidInstruction w s.pc), s)
  | some form =>
    s.perform (w.toNat / 256 % 16) (w.toNat / 16 % 16) (w.toNat % 16) (UInt8.ofNat w.toNat)
      (UInt16.ofNat (w.toNat % 4096)) form.operation

def step (s : State) : Option Answer := do
  match ← s.execute (← s.word s.pc) with
  | (.ok distance, s) => pure (.ok distance, { s with pc := s.pc + distance })
  | (.error fault, s) => pure (.error fault, s)

end State
end ChipEight.Bare
