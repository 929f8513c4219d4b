import ChipEight.Proofs.Bare.Blocks
import ChipEight.Proofs.Bare.Dumps
import ChipEight.Proofs.Bare.Rules
import ChipEight.Proofs.Machine.Requests

/-!
# Requests to bare storage

The requests over bare storage, with the checks that each of them makes itself. None of them stops a
machine without its promises, and it then goes on as the machine does.
-/

namespace ChipEight
namespace Bare.State

/-! ## Requests -/

/-- Loads a program; nothing changes if it does not fit. -/
def load (s : State) (program : List UInt8) : Option State := do
  let map : Map := { bytes := s.memory, start := UInt16.ofNat programStart }
  let (_, map) ← map.load program
  pure { s with memory := map.bytes }

/-- Chooses fonts, and writes their glyphs to memory. -/
def setFonts (s : State) (fonts : Fonts) : Option State := do
  let memory ← splice s.memory Ram.smallGlyphs fonts.small.glyphs
  let memory ← splice memory Ram.bigGlyphs fonts.big.glyphs
  pure { s with memory, fonts }

def deliverKey (s : State) (k : UInt8) : Option State :=
  match s.awaiting with
  | none => some s
  | some x => do
    let s ← s.setRegister x (UInt8.ofNat (k.toNat % 16))
    pure { s with awaiting := none, pc := s.pc + 2 }

def orKeep {ε : Type} (s : State) : Except ε State → State
  | .ok next => next
  | .error _ => s

/-- The state after a request. -/
def serve (s : State) : Request → Option State
  | .step => do pure (← s.step).2
  | .execute w => do pure (← s.execute w).2
  | .load program => s.load program
  | .halt => some { s with running := false }
  | .requestRedraw => some { s with redraw := true }
  | .takeRedraw => some { s with redraw := false }
  | .setKey k down => do
    let keys ← poke s.keys (k.toNat % 16) down
    pure { s with keys }
  | .deliverKey k => s.deliverKey k
  | .tickTimers => some { s with
      delay := UInt8.ofNat (s.delay.toNat - 1)
      sound := UInt8.ofNat (s.sound.toNat - 1) }
  | .setRegister x b => s.setRegister (x % 16) b
  | .setFlag x b => do
    let flags ← poke s.flags (x % 8) b
    pure { s with flags }
  | .setIndex a => some { s with index := a }
  | .setPc a => some { s with pc := a }
  | .setDepth n => some { s with depth := min n 16 }
  | .setDelay b => some { s with delay := b }
  | .setSound b => some { s with sound := b }
  | .write a b => s.write a b
  | .setDialect dialect => some { s with dialect }
  | .setSwitches switches => some { s with switches }
  | .setFonts fonts => s.setFonts fonts
  | .setPalette palette => some { s with palette, redraw := true }
  | .addBreakpoint a => some { s with breakpoints := s.breakpoints.insert a }
  | .removeBreakpoint a => some { s with breakpoints := s.breakpoints.erase a }
  | .restore bytes => some (s.orKeep (s.restore bytes))
  | .readFlags bytes => some (s.readFlags bytes)
  | .restoreFlags bytes => some (s.orKeep (s.restoreFlags bytes))

def serveAll (s : State) : List Request → Option State
  | [] => some s
  | request :: rest => do (← s.serve request).serveAll rest

/-- A new state whose random bytes come from a seed. -/
def ofSeed (seed : UInt64) : Option State :=
  setFonts {
    memory := Array.replicate 4096 0
    v := Array.replicate 16 0
    flags := Array.replicate 8 0
    index := 0
    pc := UInt16.ofNat programStart
    depth := 0
    stack := Array.replicate 16 0
    delay := 0
    sound := 0
    keys := Array.replicate 16 false
    awaiting := none
    screen := { cells := Array.replicate 8192 false, resolution := .standard, left := 0, top := 0 }
    running := true
    redraw := false
    switches := {}
    dialect := .superChip
    fonts := {}
    palette := {}
    breakpoints := .empty
    noise := .ofSeed seed } {}

end Bare.State

namespace Machine

open Bare Bare.State

/-! ## Requests never stop -/

theorem load_bare (m : Machine) (program : List UInt8) :
    m.bare.load program = some (m.orKeep (m.loadProgram program)).bare := by
  have hmap := Map.load_bare { ram := m.ram } program
  have hload : m.ram.load program =
      (({ ram := m.ram } : MemoryMap).load program).map (·.ram) := rfl
  rw [loadProgram, hload]
  show (({ ram := m.ram } : MemoryMap).bare.load program >>= fun p => _) = _
  rw [hmap]
  cases hresult : ({ ram := m.ram } : MemoryMap).load program with
  | ok next => rfl
  | error misfit =>
    cases misfit with
    | tooLarge size room => rfl
    | startsOutside =>
      have hinside : (UInt16.ofNat programStart).toNat ≤ memorySize := by decide
      exact absurd hresult (MemoryMap.load_ne_startsOutside _ hinside)

theorem settings_bare (m : Machine) (ram : Ram) (fonts : Fonts) :
    { m.bare with memory := ram.cells.toArray, fonts } = { m with ram, fonts }.bare := rfl

theorem setFonts_bare (m : Machine) (fonts : Fonts) :
    m.bare.setFonts fonts = some (m.setFonts fonts).bare := by
  have hsmall : splice m.bare.memory Ram.smallGlyphs fonts.small.glyphs =
      some (m.ram.overlay Ram.smallGlyphs fonts.small.glyphs).cells.toArray := by
    refine splice_overlay m.ram ?_
    rw [fonts.small.length_glyphs]
    decide
  have hbig : ∀ ram : Ram, splice ram.cells.toArray Ram.bigGlyphs fonts.big.glyphs =
      some (ram.overlay Ram.bigGlyphs fonts.big.glyphs).cells.toArray := by
    intro ram
    refine splice_overlay ram ?_
    rw [fonts.big.length_glyphs]
    decide
  rw [State.setFonts, hsmall, Option.bind_eq_bind, Option.bind_some, hbig, Machine.setFonts,
    Ram.withFonts]
  exact congrArg some (m.settings_bare _ fonts)

theorem deliverKey_bare (m : Machine) (k : UInt8) :
    m.bare.deliverKey k = some (m.deliverKey k).2.bare := by
  rw [State.deliverKey, deliverKey]
  show (match m.awaiting.map (·.val) with
    | none => _
    | some x => _) = _
  cases m.awaiting with
  | none => rfl
  | some x =>
    show (m.bare.setRegister x.val (UInt8.ofNat (k.toNat % 16)) >>= fun s => _) = _
    rw [m.setRegister_bare]
    rfl

/-- After a failing instruction the bare machine is the machine that is kept. -/
theorem answer_snd (m : Machine) (result : Except Fault (Advance × Machine)) :
    (m.answer result).2 = (m.orKeep (result.map (·.2))).bare := by
  cases result <;> rfl

theorem orKeep_bare {ε : Type} (m : Machine) (result : Except ε Machine) :
    m.bare.orKeep (result.map bare) = (m.orKeep result).bare := by
  cases result <;> rfl

/-- No request stops on bare storage. -/
theorem serve_bare (m : Machine) (request : Request) :
    m.bare.serve request = some (m.serve request).bare := by
  cases request
  case step =>
    rw [State.serve, m.step_bare]
    exact congrArg some (m.answer_snd m.step)
  case execute w =>
    rw [State.serve, m.execute_bare]
    exact congrArg some (m.answer_snd (m.execute w))
  case load program => exact m.load_bare program
  case setKey k down =>
    have hkeys := poke_toArray m.keys (keyNumber k) down
    show (poke m.keys.toArray (keyNumber k).val down >>= fun keys => _) = _
    rw [hkeys]
    rfl
  case deliverKey k => exact m.deliverKey_bare k
  case setRegister x b => exact m.setRegister_bare (registerNumber x) b
  case setFlag x b =>
    have hflags := poke_toArray m.flags (flagNumber x) b
    show (poke m.flags.toArray (flagNumber x).val b >>= fun flags => _) = _
    rw [hflags]
    rfl
  case write a b => exact m.write_bare a b
  case setFonts fonts => exact m.setFonts_bare fonts
  case restore bytes =>
    rw [State.serve, m.restore_bare, m.orKeep_bare]
    rfl
  case readFlags bytes =>
    rw [State.serve, m.readFlags_bare]
    rfl
  case restoreFlags bytes =>
    rw [State.serve, m.restoreFlags_bare, m.orKeep_bare]
    rfl
  -- The other requests set a field to what they are given.
  all_goals rfl

/-- No list of requests stops on bare storage. -/
theorem serveAll_bare (m : Machine) (requests : List Request) :
    m.bare.serveAll requests = some (m.serveAll requests).bare := by
  induction requests generalizing m with
  | nil => rfl
  | cons request rest ih =>
    rw [State.serveAll, m.serve_bare]
    exact ih (m.serve request)

theorem ofSeed_bare (seed : UInt64) : State.ofSeed seed = some (ofSeed seed).bare :=
  setFonts_bare { ram := {}, noise := .ofSeed seed } {}

end Machine
end ChipEight
