import ChipEight.Debugger.Session
import ChipEight.Run.Loop

/-!
# Rehearsals

A host for which everything is written down in advance: what happens on the input device, what the
debugger is told, and when a device fails. It keeps a record of all that the loop does to it, so a
run in a rehearsal can be looked at afterwards, and the same rehearsal always gives the same run.
-/

namespace ChipEight

open Debugger

/-! ## Debuggers -/

/-- Who looks at the machine when the loop pauses. -/
inductive Attendant
  | nobody
  /-- Gives the answers of a list and leaves the machine alone; after the list it resumes. -/
  | answers (actions : List Action)
  /-- Reads the commands of a script. -/
  | session (s : Session)

/-- What a look leaves behind: who looks the next time, and what was written. -/
structure Look where
  attendant : Attendant
  written : String := ""

/-- A look at a machine, if somebody is there to look. -/
def Attendant.look? : Attendant → Option (Machine → Visit Look)
  | nobody => none
  | answers actions =>
    some fun m =>
      { action := actions.headD .resume, machine := m, notices := []
        kept := { attendant := .answers actions.tail } }
  | session s =>
    some fun m =>
      let p := s.pause m
      { action := p.action, machine := p.machine, notices := p.notices
        kept := { attendant := .session p.session, written := p.written } }

/-! ## The host -/

/-- A device that fails after it has served some number of times. -/
structure Wear where
  served : Nat
  cause : IoError
  deriving DecidableEq, Repr

/-- Why a device fails now, if it does. -/
def Wear.failure? (wear : Option Wear) (served : Nat) : Option IoError :=
  match wear with
  | some w => if w.served ≤ served then some w.cause else none
  | none => none

/-- Everything that is written down in advance, and the record of what happened so far. -/
structure Rehearsal where
  /-- What the next polls report; nothing happens after the last of them. -/
  frames : List Events := []
  attendant : Attendant := .nobody
  pollWear : Option Wear := none
  drawWear : Option Wear := none
  invalidateFailure : Option IoError := none
  beeperFailure : Option String := none
  /-- How many polls succeeded. -/
  polled : Nat := 0
  /-- How many screens were drawn. -/
  drawn : Nat := 0
  /-- What happened, the latest first. -/
  record : List Happening := []
  /-- What the debugger wrote. -/
  written : String := ""

namespace Rehearsal

/-- What the next poll reports. -/
def poll (r : Rehearsal) : Except IoError Events :=
  match Wear.failure? r.pollWear r.polled with
  | some cause => .error cause
  | none => .ok (r.frames.headD {})

/-- The surroundings of the next tick. -/
def offer (r : Rehearsal) : Surroundings Look where
  poll := r.poll
  debugger := r.attendant.look?
  invalidate := r.invalidateFailure
  draw := Wear.failure? r.drawWear r.drawn
  beeper := r.beeperFailure

/-- Whether a screen was drawn. -/
def isDrawing : Happening → Bool
  | .drawn _ _ => true
  | _ => false

/-- The rehearsal after a poll; a poll that fails uses nothing up. -/
def afterPoll (r : Rehearsal) : Rehearsal :=
  match r.poll with
  | .ok _ => { r with frames := r.frames.tail, polled := r.polled + 1 }
  | .error _ => r

/-- The rehearsal after what the debugger did. -/
def afterLook (r : Rehearsal) (look : Option Look) : Rehearsal :=
  match look with
  | some l => { r with attendant := l.attendant, written := r.written ++ l.written }
  | none => r

/-- The rehearsal with things that happened in it. -/
def note (r : Rehearsal) (happenings : List Happening) : Rehearsal :=
  { r with
    drawn := r.drawn + happenings.countP isDrawing
    record := happenings.reverse ++ r.record }

/-- The rehearsal after a tick. -/
def absorb (r : Rehearsal) (o : Outcome Look) : Rehearsal :=
  (r.afterPoll.afterLook o.kept).note o.happenings

/-- What happened, in order. -/
def happenings (r : Rehearsal) : List Happening := r.record.reverse

/-- The rehearsal with an empty record. Counts go on. -/
def fresh (r : Rehearsal) : Rehearsal := { r with record := [], written := "" }

/-- A rehearsal as a host. -/
def host : Host Rehearsal Look := { offer, absorb }

/-- A tick in a rehearsal. -/
def tick (r : Rehearsal) (l : Loop) : Outcome Look × Rehearsal :=
  let o := l.tick r.offer
  (o, r.absorb o)

/-- A run in a rehearsal, at most `fuel` ticks long, with all that it tells in the record. -/
def run (r : Rehearsal) (fuel : Nat) (l : Loop) : RunResult Rehearsal :=
  let result := l.run host fuel (r.note [.notice (l.opening)])
  { result with state := result.state.note (result.closing.map .notice) }

end Rehearsal
end ChipEight
