import Mathlib.Control.Monad.Basic
import ChipEight.Proofs.Alternation
import ChipEight.Proofs.Machine.Effects
import ChipEight.Proofs.Run.Happenings

/-!
# The beeper over a run

The beeper is called exactly when the flag of the loop changes (`switchings_tick`). So the flag is
always the last switching of the beeper that the surroundings saw, and whether a run leaves the
beeper on is a question about the tick that ends it, and about what the flag was before.

A tick ends a run in one of two ways. Either it goes through `Loop.halt`, which switches the beeper
off: so it is with a user who quits, a debugger that quits and an instruction that fails. Or the
machine has stopped by itself, in an exit or as a debugger left it, and then nothing halts the loop:
the beeper follows the sound timer one last time, or stays as it was.
-/

namespace ChipEight

variable {δ : Type}

/-! ## Switchings among happenings -/

/-- Which way a happening switches the beeper, if it is a call of the beeper at all. -/
def Happening.switch? : Happening → Option Bool
  | .beep => some true
  | .stop => some false
  | .notice _ | .paused _ _ | .invalidated | .drawn _ _ => none

/-- The switchings of the beeper among happenings, in order. -/
def switchings (happenings : List Happening) : List Bool := happenings.filterMap Happening.switch?

theorem switchings_append (xs ys : List Happening) :
    switchings (xs ++ ys) = switchings xs ++ switchings ys := List.filterMap_append

theorem switchings_of_silent {happenings : List Happening}
    (h : Silent Happening.switch? happenings) : switchings happenings = [] :=
  List.filterMap_eq_nil_iff.mpr h

/-- Which way the last call of the beeper switched it, if there was one. -/
def lastSwitch? (happenings : List Happening) : Option Bool :=
  lastOf Happening.switch? happenings

/-- A beeper that was on or off, after some happenings. -/
def beeperAfter (was : Bool) (happenings : List Happening) : Bool :=
  heldAfter Happening.switch? was happenings

theorem beeperAfter_eq_true_iff {happenings : List Happening} :
    beeperAfter false happenings = true ↔ lastSwitch? happenings = some true := by
  rw [beeperAfter, heldAfter, lastSwitch?]
  cases lastOf Happening.switch? happenings with
  | none => exact iff_of_false (by decide) (by decide)
  | some on => rw [Option.getD_some, Option.some_inj]

namespace Loop

/-! ## The beeper of the loop -/

theorem machine_setBeeper (l : Loop) (on : Bool) (answer : Option String) :
    (l.setBeeper on answer).1.machine = l.machine := by
  rw [loop_setBeeper]

theorem beeping_setBeeper (l : Loop) (on : Bool) (answer : Option String) :
    (l.setBeeper on answer).1.beeping = on := by
  rw [loop_setBeeper]

theorem switchings_setBeeper (l : Loop) (on : Bool) (answer : Option String) :
    switchings (l.setBeeper on answer).2 = change l.beeping on := by
  by_cases hsame : on = l.beeping
  · rw [setBeeper, if_pos hsame, hsame, change_self]
    rfl
  · have hnotices : Silent Happening.switch?
        (answer.toList.map fun text => .notice (.beeperFailed text)) := silent_map (fun _ => rfl) _
    have hcall : switchings [if on then .beep else .stop] = [on] := by cases on <;> rfl
    rw [setBeeper, if_neg hsame, change, if_neg (Ne.symm hsame)]
    show switchings ([if on then .beep else .stop] ++ _) = [on]
    rw [switchings_append, hcall, switchings_of_silent hnotices, List.append_nil]

theorem beeping_halt (l : Loop) (answer : Option String) : (l.halt answer).1.beeping = false :=
  beeping_setBeeper _ _ _

theorem switchings_halt (l : Loop) (answer : Option String) :
    switchings (l.halt answer).2 = change l.beeping (l.halt answer).1.beeping := by
  rw [beeping_halt]
  exact switchings_setBeeper { l with machine := l.machine.halt } false answer

end Loop

/-! ## Ticks -/

/-- The calls of the beeper in an outcome agree with the flag of its loop, for a beeper that was on
or off before. -/
def Outcome.Tells (was : Bool) (o : Outcome δ) : Prop :=
  beeperAfter was o.happenings = o.loop.beeping

namespace Loop

theorem beeping_paint (l : Loop) (s : Surroundings δ) :
    (l.paint s).loop.beeping = l.beeping := by
  rw [loop_paint]

theorem switchings_paint (l : Loop) (s : Surroundings δ) :
    switchings (l.paint s).happenings = [] := by
  unfold paint
  dsimp only
  split
  · split <;> rfl
  · rfl

theorem switchings_trace (l : Loop) : switchings l.trace = [] := by
  have hquiet : Silent Happening.switch? l.trace := silent_trace (fun _ => rfl) l
  exact switchings_of_silent hquiet

/-- The loop after an instruction was executed: the timers tick and the beeper follows. -/
def follow (l : Loop) (next : Machine) (answer : Option String) : Loop × List Happening :=
  { l with machine := next.tickTimers }.setBeeper (next.tickTimers.sound > 0) answer

theorem advance_of_ok {l : Loop} {advance : Advance} {next : Machine} (s : Surroundings δ)
    (h : l.machine.step = .ok (advance, next)) :
    l.advance s =
      ((l.follow next s.beeper).1.paint s).after (l.trace ++ (l.follow next s.beeper).2) := by
  rw [Loop.advance, h]
  rfl

theorem advance_of_error {l : Loop} {fault : Fault} (s : Surroundings δ)
    (h : l.machine.step = .error fault) :
    l.advance s =
      { loop := (l.halt s.beeper).1
        result := .error (.fault fault)
        happenings := l.trace ++ .notice (.faulted fault) :: (l.halt s.beeper).2 } := by
  rw [Loop.advance, h]

theorem switchings_advance (l : Loop) (s : Surroundings δ) :
    switchings (l.advance s).happenings = change l.beeping (l.advance s).loop.beeping := by
  cases hstep : l.machine.step with
  | error fault =>
    have htold : switchings [.notice (.faulted fault)] = [] := rfl
    rw [advance_of_error s hstep, switchings_append, switchings_trace, List.nil_append,
      ← List.singleton_append, switchings_append, htold, List.nil_append]
    exact l.switchings_halt s.beeper
  | ok result =>
    rw [advance_of_ok s hstep, Outcome.after, switchings_append, switchings_append,
      switchings_trace, switchings_paint, List.nil_append, List.append_nil]
    dsimp only
    rw [beeping_paint, follow, beeping_setBeeper]
    exact switchings_setBeeper { l with machine := result.2.tickTimers } _ s.beeper

theorem switchings_proceed (l : Loop) (s : Surroundings δ) :
    switchings (l.proceed s).happenings = change l.beeping (l.proceed s).loop.beeping := by
  unfold proceed
  cases l.machine.runState with
  | halted => exact (change_self l.beeping).symm
  | waiting =>
    dsimp only
    rw [switchings_paint, beeping_paint, change_self]
  | running => exact l.switchings_advance s

/-! ## The turn of the machine -/

/-- The loop after the debugger has looked, unless it quits or the display fails. -/
def afterVisit? (l : Loop) (s : Surroundings δ) (v : Visit δ) : Option Loop :=
  if v.action = .quit ∨ s.invalidate.isSome then none
  else some { l with machine := v.machine.requestRedraw, stepping := v.action == .step }

/-- The loop after the debugger has looked, if it is to. -/
def afterConsult? (l : Loop) (s : Surroundings δ) : Option Loop :=
  match s.debugger with
  | none => some l
  | some visit => if l.shouldPause then l.afterVisit? s (visit l.machine) else some l

/-- The loop in a tick when the machine has its turn. Some ticks end before: the input fails, the
user or the debugger quits, or the display fails after the debugger has looked. -/
def turn? (l : Loop) (s : Surroundings δ) : Option Loop :=
  match s.poll with
  | .error _ => none
  | .ok events =>
    if events.quit then none
    else
      let l := { l with machine := applyKeys l.machine events.changes }
      let l := (l.turnDebugger events s.debugger.isSome).1
      afterConsult? { l with machine := deliver l.machine events } s

/-- What comes of a tick, or of its part from the debugger on: what it tells before is no matter of
the beeper, and then there are three ways. -/
inductive Course (l : Loop) (s : Surroundings δ) (o : Outcome δ) : Option Loop → Prop
  /-- The machine has its turn. -/
  | proceeds (turn : Loop) (told : List Happening)
      (hbeeping : turn.beeping = l.beeping) (hquiet : Silent Happening.switch? told)
      (hloop : o.loop = (turn.proceed s).loop) (hresult : o.result = (turn.proceed s).result)
      (hhappenings : o.happenings = told ++ (turn.proceed s).happenings) :
    Course l s o (some turn)
  /-- The user or the debugger quits, and the loop is halted. -/
  | quits (last : Loop) (told : List Happening)
      (hbeeping : last.beeping = l.beeping) (hquiet : Silent Happening.switch? told)
      (hloop : o.loop = (last.halt s.beeper).1)
      (hhappenings : o.happenings = told ++ (last.halt s.beeper).2) :
    Course l s o none
  /-- The input or the display fails. -/
  | fails (cause : IoError)
      (hbeeping : o.loop.beeping = l.beeping) (hquiet : Silent Happening.switch? o.happenings)
      (hresult : o.result = .error (.io cause)) :
    Course l s o none

theorem Course.after {l later : Loop} {s : Surroundings δ} {o : Outcome δ} {turn : Option Loop}
    {earlier : List Happening} (h : Course later s o turn) (hlater : later.beeping = l.beeping)
    (hearlier : Silent Happening.switch? earlier) : Course l s (o.after earlier) turn := by
  cases h with
  | proceeds turn told hbeeping hquiet hloop hresult hhappenings =>
    refine .proceeds turn (earlier ++ told) (hbeeping.trans hlater) (hearlier.append hquiet) hloop
      hresult ?_
    rw [Outcome.after, hhappenings, List.append_assoc]
  | quits last told hbeeping hquiet hloop hhappenings =>
    refine .quits last (earlier ++ told) (hbeeping.trans hlater) (hearlier.append hquiet) hloop ?_
    rw [Outcome.after, hhappenings, List.append_assoc]
  | fails cause hbeeping hquiet hresult =>
    exact .fails cause (hbeeping.trans hlater) (hearlier.append hquiet) hresult

theorem Course.keep {l : Loop} {s : Surroundings δ} {o : Outcome δ} {turn : Option Loop}
    (h : Course l s o turn) (kept : Option δ) : Course l s { o with kept } turn := by
  cases h with
  | proceeds turn told hbeeping hquiet hloop hresult hhappenings =>
    exact .proceeds turn told hbeeping hquiet hloop hresult hhappenings
  | quits last told hbeeping hquiet hloop hhappenings =>
    exact .quits last told hbeeping hquiet hloop hhappenings
  | fails cause hbeeping hquiet hresult => exact .fails cause hbeeping hquiet hresult

theorem course_proceed (l : Loop) (s : Surroundings δ) : Course l s (l.proceed s) (some l) :=
  .proceeds l [] rfl silent_nil rfl rfl rfl

/-- What the debugger tells comes first, whatever it wants. -/
theorem course_looked {l : Loop} {s : Surroundings δ} {v : Visit δ} {o : Outcome δ}
    {turn : Option Loop} (h : Course { l with machine := v.machine } s o turn) :
    Course l s
      { o.after (v.notices.map Happening.notice ++ [.paused l.machine.pc v.action]) with
        kept := some v.kept } turn := by
  have hlooked : Silent Happening.switch?
      (v.notices.map Happening.notice ++ [.paused l.machine.pc v.action]) :=
    (silent_map (fun _ => rfl) v.notices).append (silent_singleton rfl)
  have hafter : Course l s (o.after _) turn := h.after rfl hlooked
  exact hafter.keep (some v.kept)

theorem course_obey (l : Loop) (s : Surroundings δ) (v : Visit δ) :
    Course l s (l.obey s v) (l.afterVisit? s v) := by
  refine course_looked (v := v) ?_
  obtain ⟨action, machine, notices, kept⟩ := v
  unfold afterVisit?
  cases action
  case quit =>
    exact .quits { l with machine } [.notice .quitFromDebugger] rfl (silent_singleton rfl) rfl rfl
  case resume | step =>
    cases s.invalidate with
    | none => exact (course_proceed _ s).after rfl (silent_singleton rfl)
    | some cause => exact .fails cause rfl silent_nil rfl

theorem course_consult (l : Loop) (s : Surroundings δ) :
    Course l s (l.consult s) (l.afterConsult? s) := by
  unfold afterConsult? consult
  cases hdebugger : s.debugger with
  | none => exact l.course_proceed s
  | some visit =>
    dsimp only
    split
    · exact l.course_obey s (visit l.machine)
    · exact l.course_proceed s

theorem beeping_turnDebugger (l : Loop) (events : Events) (attached : Bool) :
    (l.turnDebugger events attached).1.beeping = l.beeping := by
  rw [loop_turnDebugger]

theorem course_tick (l : Loop) (s : Surroundings δ) : Course l s (l.tick s) (l.turn? s) := by
  unfold turn? tick
  cases s.poll with
  | error cause => exact .fails cause rfl silent_nil rfl
  | ok events =>
    dsimp only
    split
    · exact .quits { l with machine := applyKeys l.machine events.changes } [.notice .quitRequested]
        rfl (silent_singleton rfl) rfl rfl
    · refine (course_consult _ s).after ?_ (silent_turnDebugger rfl _ _ _)
      exact beeping_turnDebugger _ _ _

/-- The beeper is called in a tick exactly if the flag changes, and as it changes. -/
theorem switchings_tick (l : Loop) (s : Surroundings δ) :
    switchings (l.tick s).happenings = change l.beeping (l.tick s).loop.beeping := by
  have hcourse := l.course_tick s
  generalize l.turn? s = turn? at hcourse
  generalize l.tick s = o at hcourse ⊢
  cases hcourse with
  | proceeds turn told hbeeping hquiet hloop hresult hhappenings =>
    rw [hhappenings, hloop, switchings_append, switchings_of_silent hquiet, ← hbeeping]
    exact turn.switchings_proceed s
  | quits last told hbeeping hquiet hloop hhappenings =>
    rw [hhappenings, hloop, switchings_append, switchings_of_silent hquiet, ← hbeeping]
    exact last.switchings_halt s.beeper
  | fails cause hbeeping hquiet hresult =>
    rw [switchings_of_silent hquiet, hbeeping, change_self]

/-- How the beeper was switched last in a tick is how it stands after it. -/
theorem tells_tick (l : Loop) (s : Surroundings δ) : (l.tick s).Tells l.beeping := by
  show ((switchings (l.tick s).happenings).getLast?).getD l.beeping = (l.tick s).loop.beeping
  rw [switchings_tick, getLast?_change]

/-! ## Runs -/

/-- Everything that happens in ticks among given surroundings. -/
def history (l : Loop) (ss : List (Surroundings δ)) : List Happening :=
  (l.ticks ss).flatMap (·.happenings)

/-- The flag of the loop tells how the beeper was last switched, in a run of any length. -/
theorem beeperAfter_history (l : Loop) (ss : List (Surroundings δ)) :
    beeperAfter l.beeping (l.history ss) = (l.afterTicks ss).beeping := by
  -- The loop changes from tick to tick, and what it is beeping now is what the rest starts from.
  induction ss generalizing l with
  | nil => rfl
  | cons s rest ih =>
    have htells : heldAfter Happening.switch? l.beeping (l.tick s).happenings =
        (l.tick s).loop.beeping := l.tells_tick s
    show heldAfter Happening.switch? l.beeping
      ((l.tick s).happenings ++ (l.tick s).loop.history rest) =
        ((l.tick s).loop.afterTicks rest).beeping
    rw [heldAfter_append, htells]
    exact ih (l.tick s).loop

theorem afterTicks_concat (l : Loop) (ss : List (Surroundings δ)) (s : Surroundings δ) :
    l.afterTicks (ss ++ [s]) = ((l.afterTicks ss).tick s).loop := by
  rw [afterTicks, List.foldl_append]
  rfl

theorem ticks_concat (l : Loop) (ss : List (Surroundings δ)) (s : Surroundings δ) :
    l.ticks (ss ++ [s]) = l.ticks ss ++ [(l.afterTicks ss).tick s] := by
  induction ss generalizing l with
  | nil => rfl
  | cons first rest ih => exact congrArg (l.tick first :: ·) (ih (l.tick first).loop)

theorem history_concat (l : Loop) (ss : List (Surroundings δ)) (s : Surroundings δ) :
    l.history (ss ++ [s]) = l.history ss ++ ((l.afterTicks ss).tick s).happenings := by
  rw [history, ticks_concat, List.flatMap_append, List.flatMap_singleton]
  rfl

theorem lastSwitch?_history_eq_some_true_iff {l : Loop} (hsilent : l.beeping = false)
    (ss : List (Surroundings δ)) :
    lastSwitch? (l.history ss) = some true ↔ (l.afterTicks ss).beeping = true := by
  rw [← beeperAfter_history, hsilent, beeperAfter_eq_true_iff]

/-! ## The end of a run -/

/-- The results with which a machine stops: it halts, or an instruction fails. -/
def Stops (result : Except Failure RunState) : Prop :=
  result = .ok .halted ∨ ∃ fault, result = .error (.fault fault)

theorem runState_eq_halted_iff {m : Machine} : m.runState = .halted ↔ m.running = false := by
  unfold Machine.runState
  cases m.running with
  | false => exact ⟨fun _ => rfl, fun _ => rfl⟩
  | true => cases m.awaiting <;> exact ⟨nofun, nofun⟩

theorem running_of_stops_paint {l : Loop} {s : Surroundings δ} (h : Stops (l.paint s).result) :
    l.machine.running = false := by
  rw [← runState_eq_halted_iff]
  unfold paint at h
  dsimp only at h
  split at h
  · split at h
    · obtain h | ⟨fault, h⟩ := h <;> cases h
    · obtain h | ⟨fault, h⟩ := h
      · exact Except.ok.inj h
      · cases h
  · obtain h | ⟨fault, h⟩ := h
    · exact Except.ok.inj h
    · cases h

/-- The exit is the one instruction that stops the machine. -/
theorem operation?_of_step_running {m next : Machine} {advance : Advance}
    (hstep : m.step = .ok (advance, next)) (hbefore : m.running = true)
    (hafter : next.running = false) : m.operation? = some .exit ∧ next = m.halt := by
  have heffect := m.step_effect
  rw [hstep] at heffect
  cases heffect with
  | call h hroom => exact absurd (hbefore.symm.trans hafter) nofun
  | ret h top htop => exact absurd (hbefore.symm.trans hafter) nofun
  | exit h => exact ⟨h, rfl⟩
  | other operation h hcall hret hexit advance next hframe =>
    rw [hframe.running, hbefore] at hafter
    cases hafter

theorem sound_pos_tickTimers_iff (m : Machine) :
    0 < m.tickTimers.sound ↔ 1 < m.sound.toNat := by
  have hlt := m.sound.toNat_lt
  rw [UInt8.lt_iff_toNat_lt]
  show 0 < (UInt8.ofNat (m.sound.toNat - 1)).toNat ↔ _
  rw [UInt8.toNat_ofNat']
  omega

/-- An instruction after which the machine stops leaves the beeper on only if it is an exit, and if
the sound timer still has a tick to go. -/
theorem beeping_advance_iff {l : Loop} {s : Surroundings δ} (hrunning : l.machine.running = true)
    (hstops : Stops (l.advance s).result) :
    (l.advance s).loop.beeping = true ↔
      l.machine.operation? = some .exit ∧ 1 < l.machine.sound.toNat := by
  cases hstep : l.machine.step with
  | error fault =>
    rw [advance_of_error s hstep, beeping_halt]
    refine ⟨nofun, ?_⟩
    rintro ⟨hexit, -⟩
    rw [Machine.step_of_execute_eq_stay (Machine.execute_of_operation? hexit)] at hstep
    cases hstep
  | ok result =>
    obtain ⟨advance, next⟩ := result
    rw [advance_of_ok s hstep] at hstops ⊢
    have hnext : next.running = false := by
      have hpainted := running_of_stops_paint hstops
      rwa [follow, machine_setBeeper] at hpainted
    obtain ⟨hexit, rfl⟩ := operation?_of_step_running hstep hrunning hnext
    show ((l.follow l.machine.halt s.beeper).1.paint s).loop.beeping = true ↔ _
    rw [beeping_paint, follow, beeping_setBeeper, decide_eq_true_iff]
    exact (sound_pos_tickTimers_iff _).trans (and_iff_right hexit).symm

theorem beeping_proceed_iff {l : Loop} {s : Surroundings δ} (hstops : Stops (l.proceed s).result) :
    (l.proceed s).loop.beeping = true ↔
      l.machine.running = false ∧ l.beeping = true ∨
      l.machine.runState = .running ∧ l.machine.operation? = some .exit ∧
        1 < l.machine.sound.toNat := by
  unfold proceed at hstops ⊢
  cases hstate : l.machine.runState with
  | halted =>
    have hstopped := runState_eq_halted_iff.mp hstate
    exact ⟨fun h => .inl ⟨hstopped, h⟩, fun h => (h.resolve_right nofun).2⟩
  | waiting =>
    -- A machine that waits for a key is only drawn, and that does not stop it.
    rw [hstate] at hstops
    have hhalted := runState_eq_halted_iff.mpr (running_of_stops_paint hstops)
    cases hstate.symm.trans hhalted
  | running =>
    have hrunning : l.machine.running = true := by
      rw [← Bool.not_eq_false, ← runState_eq_halted_iff, hstate]
      exact nofun
    rw [hstate] at hstops
    refine (beeping_advance_iff hrunning hstops).trans ⟨fun h => .inr ⟨rfl, h⟩, fun h => ?_⟩
    refine (h.resolve_left ?_).2
    rintro ⟨hstopped, -⟩
    cases hrunning.symm.trans hstopped

/-- Whatever stops a machine, its beeper is on then if and only if the machine had its turn in the
tick and stopped itself: it was stopped already, with the beeper on from before; or it executes an
exit while the sound timer has more than one tick to go. -/
theorem beeper_on_iff {l : Loop} (hsilent : l.beeping = false) (ss : List (Surroundings δ))
    (s : Surroundings δ) (hstops : Stops ((l.afterTicks ss).tick s).result) :
    lastSwitch? (l.history (ss ++ [s])) = some true ↔
      ∃ turn, (l.afterTicks ss).turn? s = some turn ∧
        (turn.machine.running = false ∧ lastSwitch? (l.history ss) = some true ∨
          turn.machine.runState = .running ∧ turn.machine.operation? = some .exit ∧
            1 < turn.machine.sound.toNat) := by
  rw [lastSwitch?_history_eq_some_true_iff hsilent, lastSwitch?_history_eq_some_true_iff hsilent,
    afterTicks_concat]
  have hcourse := (l.afterTicks ss).course_tick s
  generalize (l.afterTicks ss).turn? s = turn? at hcourse ⊢
  generalize (l.afterTicks ss).tick s = o at hstops hcourse ⊢
  cases hcourse with
  | proceeds turn told hbeeping hquiet hloop hresult hhappenings =>
    rw [hresult] at hstops
    rw [hloop, beeping_proceed_iff hstops, hbeeping]
    refine ⟨fun h => ⟨turn, rfl, h⟩, ?_⟩
    rintro ⟨_, ⟨⟩, h⟩
    exact h
  | quits last told hbeeping hquiet hloop hhappenings =>
    rw [hloop, beeping_halt]
    refine ⟨nofun, ?_⟩
    rintro ⟨turn, ⟨⟩, -⟩
  | fails cause hbeeping hquiet hresult =>
    rw [hresult] at hstops
    obtain h | ⟨fault, h⟩ := hstops <;> cases h

/-- A debugger that hands back a stopped machine while the beeper is on. -/
theorem beeper_on_iff_stopped :
    let l : Loop := { machine := {
      ram := ({} : Ram).writeAll 0x200 [0x60, 0x05, 0xF0, 0x18, 0x12, 0x04] } }
    let idle : Surroundings Unit :=
      { poll := .ok {}, debugger := none, invalidate := none, draw := none, beeper := none }
    let visited : Surroundings Unit := { idle with
      poll := .ok { enterDebug := true }
      debugger := some fun m =>
        { action := .resume, machine := m.halt, notices := [], kept := () } }
    l.beeping = false ∧ Stops ((l.afterTicks [idle, idle]).tick visited).result ∧
      lastSwitch? (l.history [idle, idle, visited]) = some true := by
  intro l idle visited
  have hstops : Stops ((l.afterTicks [idle, idle]).tick visited).result := .inl (by decide +kernel)
  have hon : lastSwitch? (l.history [idle, idle]) = some true := by decide +kernel
  have hany : ((l.afterTicks [idle, idle]).turn? visited).any
      fun turn => turn.machine.running == false := by decide +kernel
  obtain ⟨turn, hturn, hstopped⟩ := (Option.any_eq_true _ _).mp hany
  have hstopped : turn.machine.running = false := beq_iff_eq.mp hstopped
  refine ⟨rfl, hstops, (beeper_on_iff rfl [idle, idle] visited hstops).mpr ?_⟩
  exact ⟨turn, hturn, .inl ⟨hstopped, hon⟩⟩

/-- An exit while the sound timer runs: the run is over, and the beeper was never switched off. -/
theorem beeper_on_after_exit :
    let l : Loop := { machine := {
      ram := ({} : Ram).writeAll 0x200 [0x60, 0x05, 0xF0, 0x18, 0x00, 0xFD] } }
    let idle : Surroundings Unit :=
      { poll := .ok {}, debugger := none, invalidate := none, draw := none, beeper := none }
    l.beeping = false ∧ ((l.afterTicks [idle, idle]).tick idle).result = .ok .halted ∧
      lastSwitch? (l.history [idle, idle, idle]) = some true := by
  intro l idle
  have hhalted : ((l.afterTicks [idle, idle]).tick idle).result = .ok .halted := by decide +kernel
  have hon : lastSwitch? (l.history [idle, idle, idle]) = some true := by decide +kernel
  exact ⟨rfl, hhalted, hon⟩

end Loop
end ChipEight
