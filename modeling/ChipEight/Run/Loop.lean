import ChipEight.Debugger.Command
import ChipEight.Instruction.Written
import ChipEight.Keyboard
import ChipEight.Machine.Step
import ChipEight.Settings

/-!
# The run loop

A machine runs tick by tick among surroundings: an input device, a display, a beeper and perhaps a
debugger. In a tick,

1. the input is read: keys change, and the user may quit or turn the debugger on and off;
2. an instruction that waits for a key gets the first one that went down;
3. the debugger looks at the machine, if it is on and a step or a breakpoint calls for it;
4. a running machine executes one instruction, the timers tick, and the beeper follows the sound
   timer;
5. the screen is drawn, if it changed.

A tick is a pure function of the loop and of what the surroundings answer in this tick. Everything
that the surroundings get to see of it is in its result, in order.
-/

namespace ChipEight

open Debugger (Action)

/-! ## Surroundings -/

/-- A look of the debugger at a machine, and whatever the debugger keeps from it. -/
structure Visit (δ : Type) where
  action : Action
  machine : Machine
  notices : List Notice
  kept : δ

/-- What the surroundings answer in one tick, as far as they are asked. -/
structure Surroundings (δ : Type) where
  /-- What happened on the input device. -/
  poll : Except IoError Events
  /-- What the debugger does with a machine, if there is a debugger. -/
  debugger : Option (Machine → Visit δ)
  /-- Why the display cannot forget its picture, if it cannot. -/
  invalidate : Option IoError
  /-- Why the display cannot draw, if it cannot. -/
  draw : Option IoError
  /-- Why the beeper cannot be switched, if it cannot. -/
  beeper : Option String

/-- Something that a tick does to the surroundings. -/
inductive Happening
  /-- It tells something. -/
  | notice (n : Notice)
  /-- The debugger looked at the machine. -/
  | paused (pc : UInt16) (action : Action)
  /-- The display forgot its picture. -/
  | invalidated
  /-- The beeper was switched on, or this was tried. -/
  | beep
  /-- The beeper was switched off, or this was tried. -/
  | stop
  /-- The display drew a screen. -/
  | drawn (screen : Raster) (palette : Palette)
  deriving DecidableEq

/-! ## The loop -/

/-- A machine that is being run. -/
structure Loop where
  machine : Machine
  /-- Instructions per second. -/
  clock : Nat := defaultClock
  /-- Whether breakpoints count. -/
  debugging : Bool := false
  /-- Whether the debugger is to look before every instruction. -/
  stepping : Bool := false
  /-- Whether every instruction is told. -/
  verbose : Bool := false
  /-- Whether the beeper was last switched on. -/
  beeping : Bool := false

/-- What comes of a tick. -/
structure Outcome (δ : Type) where
  loop : Loop
  result : Except Failure RunState
  happenings : List Happening
  /-- What the debugger kept, if it looked. -/
  kept : Option δ := none

/-- An outcome with things that happened before. -/
def Outcome.after {δ : Type} (o : Outcome δ) (earlier : List Happening) : Outcome δ :=
  { o with happenings := earlier ++ o.happenings }

namespace Loop

/-- The loop with given settings. The clock never stands still. -/
def configure (l : Loop) (s : Settings) : Loop :=
  { l with
    clock := max s.clock 1
    verbose := s.verbose
    debugging := l.debugging || s.debug
    stepping := l.stepping || s.debug }

/-! ## The beeper -/

/-- Switches the beeper, unless it is already as wanted. A beeper that fails is told of, and counts
as switched. -/
def setBeeper (l : Loop) (on : Bool) (answer : Option String) : Loop × List Happening :=
  if on = l.beeping then (l, [])
  else
    ({ l with beeping := on },
      (if on then .beep else .stop) :: answer.toList.map fun text => .notice (.beeperFailed text))

/-- Halts the machine and switches the beeper off. -/
def halt (l : Loop) (answer : Option String) : Loop × List Happening :=
  { l with machine := l.machine.halt }.setBeeper false answer

/-! ## Steps of a tick -/

/-- Applies key changes one after another. -/
def applyKeys (m : Machine) (changes : List KeyChange) : Machine :=
  changes.foldl (fun m c => m.setKey c.key c.down) m

/-- Turns the debugger on and off as the user wishes; off wins. Without a debugger there is nothing
to turn on. -/
def turnDebugger (l : Loop) (events : Events) (attached : Bool) : Loop × List Happening :=
  let (l, told) :=
    if events.enterDebug then
      if attached then ({ l with debugging := true, stepping := true }, [])
      else (l, [.notice .noDebugger])
    else (l, [])
  (if events.exitDebug then { l with debugging := false, stepping := false } else l, told)

/-- Hands the first key that went down to an instruction that waits for one. -/
def deliver (m : Machine) (events : Events) : Machine :=
  match m.runState, events.firstPress with
  | .waiting, some k => (m.deliverKey k).2
  | _, _ => m

/-- Whether the debugger is to look at the machine now. -/
def shouldPause (l : Loop) : Bool :=
  l.debugging && l.machine.runState == .running &&
    (l.stepping || l.machine.breakpoints.contains l.machine.pc)

/-- Draws the screen if it changed. -/
def paint {δ : Type} (l : Loop) (s : Surroundings δ) : Outcome δ :=
  let (changed, machine) := l.machine.takeRedraw
  let l := { l with machine }
  let state := l.machine.runState
  if changed then
    match s.draw with
    | some cause => { loop := l, result := .error (.io cause), happenings := [] }
    | none =>
      { loop := l, result := .ok state
        happenings := [.drawn l.machine.screen l.machine.palette] }
  else { loop := l, result := .ok state, happenings := [] }

/-- The notice of the instruction that is about to be executed. -/
def trace (l : Loop) : List Happening :=
  if l.verbose then [.notice (.executing l.machine.pc (disassemble l.machine.currentWord))]
  else []

/-- Executes an instruction, lets the timers tick and the beeper follow, and draws. -/
def advance {δ : Type} (l : Loop) (s : Surroundings δ) : Outcome δ :=
  match l.machine.step with
  | .error fault =>
    let (l', switched) := l.halt s.beeper
    { loop := l', result := .error (.fault fault)
      happenings := l.trace ++ .notice (.faulted fault) :: switched }
  | .ok (_, m) =>
    let m := m.tickTimers
    let (l', switched) := { l with machine := m }.setBeeper (m.sound > 0) s.beeper
    (l'.paint s).after (l.trace ++ switched)

/-- Goes on with a machine that the debugger does not hold back. -/
def proceed {δ : Type} (l : Loop) (s : Surroundings δ) : Outcome δ :=
  match l.machine.runState with
  | .halted => { loop := l, result := .ok .halted, happenings := [] }
  | .waiting => l.paint s
  | .running => l.advance s

/-- Does what the debugger wants after it has looked. -/
def obey {δ : Type} (l : Loop) (s : Surroundings δ) (v : Visit δ) : Outcome δ :=
  let looked := v.notices.map Happening.notice ++ [.paused l.machine.pc v.action]
  let l := { l with machine := v.machine }
  let outcome : Outcome δ :=
    match v.action with
    | .quit =>
      let (l, switched) := l.halt s.beeper
      { loop := l, result := .ok .halted, happenings := .notice .quitFromDebugger :: switched }
    | action =>
      let l := { l with stepping := action == .step }
      match s.invalidate with
      | some cause => { loop := l, result := .error (.io cause), happenings := [] }
      | none => ({ l with machine := l.machine.requestRedraw }.proceed s).after [.invalidated]
  { outcome.after looked with kept := some v.kept }

/-- Lets the debugger look at the machine if it is to, and goes on. -/
def consult {δ : Type} (l : Loop) (s : Surroundings δ) : Outcome δ :=
  match s.debugger with
  | none => l.proceed s
  | some visit => if l.shouldPause then l.obey s (visit l.machine) else l.proceed s

/-- One tick. -/
def tick {δ : Type} (l : Loop) (s : Surroundings δ) : Outcome δ :=
  match s.poll with
  | .error cause => { loop := l, result := .error (.io cause), happenings := [] }
  | .ok events =>
    let l := { l with machine := applyKeys l.machine events.changes }
    if events.quit then
      let (l, switched) := l.halt s.beeper
      { loop := l, result := .ok .halted, happenings := .notice .quitRequested :: switched }
    else
      let (l, told) := l.turnDebugger events s.debugger.isSome
      let l := { l with machine := deliver l.machine events }
      (l.consult s).after told

/-! ## Many ticks -/

/-- The outcomes of ticks among given surroundings, one after another. -/
def ticks {δ : Type} (l : Loop) : List (Surroundings δ) → List (Outcome δ)
  | [] => []
  | s :: rest =>
    let o := l.tick s
    o :: o.loop.ticks rest

/-- The loop after ticks among given surroundings. -/
def afterTicks {δ : Type} (l : Loop) (ss : List (Surroundings δ)) : Loop :=
  ss.foldl (fun l s => (l.tick s).loop) l

end Loop

/-! ## Hosts -/

/-- A host provides the surroundings of every tick, and takes note of what came of it. -/
structure Host (σ δ : Type) where
  offer : σ → Surroundings δ
  absorb : σ → Outcome δ → σ

/-- How a run ended. -/
inductive Ending
  /-- The machine halted. -/
  | halted
  /-- A tick failed. -/
  | failed (cause : Failure)
  /-- The run was cut off after the ticks it was given. -/
  | cutOff
  deriving DecidableEq

/-- What comes of a run. -/
structure RunResult (σ : Type) where
  loop : Loop
  state : σ
  ending : Ending

/-- What is told at the end of a run. -/
def RunResult.closing {σ : Type} (r : RunResult σ) : List Notice :=
  if r.ending = .halted then [.halted r.loop.machine.pc] else []

namespace Loop

/-- What is told at the start of a run. -/
def opening (l : Loop) : Notice := .running l.clock l.machine.dialect l.machine.switches

/-- Runs a machine: ticks until it halts or a tick fails, at most `fuel` times. -/
def run {σ δ : Type} (host : Host σ δ) : Nat → Loop → σ → RunResult σ
  | 0, l, state => { loop := l, state, ending := .cutOff }
  | fuel + 1, l, state =>
    let o := l.tick (host.offer state)
    let state := host.absorb state o
    match o.result with
    | .error cause => { loop := o.loop, state, ending := .failed cause }
    | .ok .halted => { loop := o.loop, state, ending := .halted }
    | .ok _ => run host fuel o.loop state

end Loop
end ChipEight
