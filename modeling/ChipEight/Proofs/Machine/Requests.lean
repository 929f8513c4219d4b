import ChipEight.Machine.Dump
import ChipEight.Machine.Step

/-!
# Requests to a machine

Everything that can be asked of a machine and may change it, so that "in any order" means a list of
requests. A request that fails leaves the machine as it was, with one exception: a file of flag
registers that is too short still changes those that it has bytes for.
-/

namespace ChipEight

/-- What can be asked of a machine. -/
inductive Request
  | step
  /-- Execute a word, without an advance. -/
  | execute (w : UInt16)
  | load (program : List UInt8)
  | halt
  | requestRedraw
  | takeRedraw
  | setKey (k : UInt8) (down : Bool)
  | deliverKey (k : UInt8)
  | tickTimers
  | setRegister (x : Nat) (b : UInt8)
  | setFlag (x : Nat) (b : UInt8)
  | setIndex (a : UInt16)
  | setPc (a : UInt16)
  | setDepth (n : Nat)
  | setDelay (b : UInt8)
  | setSound (b : UInt8)
  | write (a : UInt16) (b : UInt8)
  | setDialect (dialect : Dialect)
  | setSwitches (switches : Switches)
  | setFonts (fonts : Fonts)
  | setPalette (palette : Palette)
  | addBreakpoint (a : UInt16)
  | removeBreakpoint (a : UInt16)
  /-- Restore a dump. -/
  | restore (bytes : List UInt8)
  /-- Read the flag registers from a file. -/
  | readFlags (bytes : List UInt8)
  /-- Read the flag registers from bytes at hand. -/
  | restoreFlags (bytes : List UInt8)

namespace Machine

/-- The machine of a result, or this one after a failure. -/
def orKeep {ε : Type} (m : Machine) : Except ε Machine → Machine
  | .ok next => next
  | .error _ => m

/-- The machine after a request. -/
def serve (m : Machine) : Request → Machine
  | .step => m.orKeep (m.step.map (·.2))
  | .execute w => m.orKeep ((m.execute w).map (·.2))
  | .load program => m.orKeep (m.loadProgram program)
  | .halt => m.halt
  | .requestRedraw => m.requestRedraw
  | .takeRedraw => m.takeRedraw.2
  | .setKey k down => m.setKey k down
  | .deliverKey k => (m.deliverKey k).2
  | .tickTimers => m.tickTimers
  | .setRegister x b => m.setRegister (registerNumber x) b
  | .setFlag x b => m.setFlag (flagNumber x) b
  | .setIndex a => { m with index := a }
  | .setPc a => { m with pc := a }
  | .setDepth n => m.setDepth n
  | .setDelay b => { m with delay := b }
  | .setSound b => { m with sound := b }
  | .write a b => { m with ram := m.ram.write a b }
  | .setDialect dialect => { m with dialect }
  | .setSwitches switches => { m with switches }
  | .setFonts fonts => m.setFonts fonts
  | .setPalette palette => m.setPalette palette
  | .addBreakpoint a => m.addBreakpoint a
  | .removeBreakpoint a => m.removeBreakpoint a
  | .restore bytes => m.orKeep (m.restore bytes)
  | .readFlags bytes => (m.readFlags bytes).2
  | .restoreFlags bytes => m.orKeep (m.restoreFlags bytes)

/-- Loading a program changes memory, if anything. -/
theorem exists_serve_load_eq (m : Machine) (program : List UInt8) :
    ∃ ram, m.serve (.load program) = { m with ram } := by
  rw [serve, loadProgram]
  split
  · exact ⟨_, rfl⟩
  · exact ⟨m.ram, rfl⟩

/-- A key that is handed over ends a wait and goes to a register, if it does anything. -/
theorem exists_serve_deliverKey_eq (m : Machine) (k : UInt8) :
    ∃ v awaiting pc, m.serve (.deliverKey k) = { m with v, awaiting, pc } := by
  rw [serve, deliverKey]
  split
  · exact ⟨m.v, m.awaiting, m.pc, rfl⟩
  · exact ⟨_, _, _, rfl⟩

/-- Restoring the flag registers changes them, if anything. -/
theorem exists_serve_restoreFlags_eq (m : Machine) (bytes : List UInt8) :
    ∃ flags, m.serve (.restoreFlags bytes) = { m with flags } := by
  rw [serve, restoreFlags, readFlags]
  by_cases hshort : bytes.length < 8
  · rw [if_pos hshort]
    exact ⟨m.flags, rfl⟩
  · rw [if_neg hshort]
    exact ⟨_, rfl⟩

/-- The machine after requests, one after another. -/
def serveAll (m : Machine) (requests : List Request) : Machine := requests.foldl serve m

theorem serveAll_concat (m : Machine) (requests : List Request) (request : Request) :
    m.serveAll (requests ++ [request]) = (m.serveAll requests).serve request :=
  List.foldl_append

end Machine
end ChipEight
