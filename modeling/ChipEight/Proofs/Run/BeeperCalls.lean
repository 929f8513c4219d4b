import ChipEight.Proofs.Alternation
import ChipEight.Proofs.Run.Observers

/-!
# The calls of the beeper

Over a run, the calls of the beeper alternate, since each of them is a change of the flag of the
loop. After an instruction the flag, and with it the last call, tells whether the sound timer runs.
A beeper that fails is told of, and nothing else comes of it.
-/

namespace ChipEight

variable {δ : Type}

/-! ## Calls in a run -/

namespace Loop

theorem alternates_history (l : Loop) (ss : List (Surroundings δ)) :
    Alternates l.beeping (switchings (l.history ss)) := by
  induction ss generalizing l with
  | nil => exact alternates_nil l.beeping
  | cons s rest ih =>
    show Alternates l.beeping
      (switchings ((l.tick s).happenings ++ (l.tick s).loop.history rest))
    rw [switchings_append, switchings_tick]
    exact (ih (l.tick s).loop).change_append l.beeping

/-- After an instruction that does not fail, the flag tells whether the sound timer runs. -/
theorem beeping_tick_of_step {l : Loop} {s : Surroundings δ} {m next : Machine}
    {advance : Advance} (hm : l.executes? s = some m) (hstep : m.step = .ok (advance, next)) :
    (l.tick s).loop.beeping = true ↔ 0 < (l.tick s).loop.machine.sound := by
  obtain ⟨hrunning, hmachine⟩ := machine_tick_of_executes? hm
  have hexecuted : (l.tick s).loop.machine.sound = next.tickTimers.sound := by
    rw [hmachine, Machine.executed, hstep]
  obtain ⟨turn, hturn, hacts⟩ := Option.bind_eq_some_iff.mp hm
  obtain rfl := Option.some.inj (Option.ite_none_right_eq_some.mp hacts).2
  have hcourse := l.course_tick s
  rw [hturn] at hcourse
  cases hcourse with
  | proceeds turn told hbeeping hquiet hloop hresult hhappenings =>
    have hflag : (turn.proceed s).loop.beeping = decide (next.tickTimers.sound > 0) := by
      rw [proceed, hrunning]
      show (turn.advance s).loop.beeping = _
      rw [advance_of_ok s hstep]
      show ((turn.follow next s.beeper).1.paint s).loop.beeping = _
      rw [beeping_paint, follow, beeping_setBeeper]
    rw [hloop, hflag, ← hloop, hexecuted, decide_eq_true_iff]

end Loop

/-! ## Beepers that fail -/

/-- A beeper that fails is told of. -/
def Happening.isTrouble : Happening → Bool
  | .notice (.beeperFailed _) => true
  | .notice _ | .paused _ _ | .invalidated | .beep | .stop | .drawn _ _ => false

/-- Happenings without those that tell of a beeper that fails. -/
def withoutTrouble (happenings : List Happening) : List Happening :=
  happenings.filter fun x => !x.isTrouble

/-- An outcome, but for what is told of a beeper that fails. -/
def Outcome.untroubled (o : Outcome δ) : Outcome δ :=
  { o with happenings := withoutTrouble o.happenings }

/-- The same surroundings with a beeper that does not fail. -/
def Surroundings.reliable (s : Surroundings δ) : Surroundings δ := { s with beeper := none }

theorem withoutTrouble_append (xs ys : List Happening) :
    withoutTrouble (xs ++ ys) = withoutTrouble xs ++ withoutTrouble ys := List.filter_append _ _

theorem Outcome.untroubled_after {o p : Outcome δ} (h : o.untroubled = p.untroubled)
    {xs ys : List Happening} (hearlier : withoutTrouble xs = withoutTrouble ys) :
    (o.after xs).untroubled = (p.after ys).untroubled := by
  have hafter : ∀ (q : Outcome δ) (zs : List Happening),
      (q.after zs).untroubled = q.untroubled.after (withoutTrouble zs) := by
    intro q zs
    rw [untroubled, after, withoutTrouble_append]
    rfl
  rw [hafter, hafter, h, hearlier]

theorem Outcome.untroubled_afterLook {o p : Outcome δ} (h : o.untroubled = p.untroubled)
    (pc : UInt16) (v : Visit δ) :
    (o.afterLook pc v).untroubled = (p.afterLook pc v).untroubled :=
  congrArg (fun q : Outcome δ => { q with kept := some v.kept }) (untroubled_after h rfl)

theorem switchings_withoutTrouble (happenings : List Happening) :
    switchings (withoutTrouble happenings) = switchings happenings := by
  rw [switchings, withoutTrouble, List.filterMap_filter]
  refine List.filterMap_congr fun x _ => ?_
  rcases x with ⟨_ | _⟩ | _ | _ | _ | _ | _ <;> rfl

namespace Loop

variable (l : Loop) (s : Surroundings δ)

theorem setBeeper_reliable (on : Bool) (answer : Option String) :
    (l.setBeeper on none).1 = (l.setBeeper on answer).1 ∧
      withoutTrouble (l.setBeeper on none).2 = withoutTrouble (l.setBeeper on answer).2 := by
  rw [loop_setBeeper, loop_setBeeper]
  refine ⟨rfl, ?_⟩
  unfold setBeeper
  split
  · rfl
  · cases on <;> cases answer <;> rfl

theorem halt_reliable (answer : Option String) :
    (l.halt none).1 = (l.halt answer).1 ∧
      withoutTrouble (l.halt none).2 = withoutTrouble (l.halt answer).2 :=
  setBeeper_reliable _ false answer

/-- An outcome of halting the loop after something was told. -/
theorem untroubled_halt (result : Except Failure RunState) (told : List Happening) :
    ({ loop := (l.halt s.reliable.beeper).1, result
       happenings := told ++ (l.halt s.reliable.beeper).2 } : Outcome δ).untroubled =
      ({ loop := (l.halt s.beeper).1, result
         happenings := told ++ (l.halt s.beeper).2 } : Outcome δ).untroubled := by
  obtain ⟨hloop, htold⟩ := l.halt_reliable s.beeper
  unfold Outcome.untroubled
  dsimp only
  rw [withoutTrouble_append, withoutTrouble_append, ← htold, ← hloop]
  rfl

theorem untroubled_advance : (l.advance s.reliable).untroubled = (l.advance s).untroubled := by
  cases hstep : l.machine.step with
  | error fault =>
    have hhalt := l.untroubled_halt s (.error (.fault fault)) (l.trace ++ [.notice (.faulted fault)])
    rw [List.append_assoc, List.append_assoc] at hhalt
    rw [advance_of_error _ hstep, advance_of_error _ hstep]
    exact hhalt
  | ok result =>
    obtain ⟨hloop, htold⟩ := setBeeper_reliable { l with machine := result.2.tickTimers }
      (result.2.tickTimers.sound > 0) s.beeper
    rw [advance_of_ok _ hstep, advance_of_ok _ hstep]
    refine Outcome.untroubled_after (congrArg (fun k : Loop => (k.paint s).untroubled) hloop) ?_
    rw [withoutTrouble_append, withoutTrouble_append]
    exact congrArg (withoutTrouble l.trace ++ ·) htold

theorem untroubled_proceed : (l.proceed s.reliable).untroubled = (l.proceed s).untroubled := by
  unfold proceed
  cases l.machine.runState with
  | halted | waiting => rfl
  | running => exact l.untroubled_advance s

theorem untroubled_obey (v : Visit δ) :
    (l.obey s.reliable v).untroubled = (l.obey s v).untroubled := by
  by_cases hquit : v.action = .quit
  · rw [l.obey_of_quit hquit, l.obey_of_quit hquit]
    refine Outcome.untroubled_afterLook ?_ _ v
    exact untroubled_halt _ s (.ok .halted) [.notice .quitFromDebugger]
  · cases hinvalidate : s.invalidate with
    | some cause =>
      have hreliable : s.reliable.invalidate = some cause := hinvalidate
      rw [l.obey_of_failure hquit hinvalidate, l.obey_of_failure hquit hreliable]
    | none =>
      have hreliable : s.reliable.invalidate = none := hinvalidate
      rw [l.obey_of_ne_quit hquit hinvalidate, l.obey_of_ne_quit hquit hreliable]
      refine Outcome.untroubled_afterLook ?_ _ v
      exact Outcome.untroubled_after (untroubled_proceed _ s) rfl

theorem untroubled_consult : (l.consult s.reliable).untroubled = (l.consult s).untroubled := by
  have hdebugger : s.reliable.debugger = s.debugger := rfl
  unfold consult
  rw [hdebugger]
  cases s.debugger with
  | none => exact l.untroubled_proceed s
  | some visit =>
    dsimp only
    split
    · exact l.untroubled_obey s _
    · exact l.untroubled_proceed s

/-- Whether the beeper fails makes no difference to a tick, but for what is told of it. -/
theorem untroubled_tick : (l.tick s.reliable).untroubled = (l.tick s).untroubled := by
  have hpoll : s.reliable.poll = s.poll := rfl
  unfold tick
  rw [hpoll]
  cases s.poll with
  | error cause => rfl
  | ok events =>
    dsimp only
    split
    · exact untroubled_halt _ s (.ok .halted) [.notice .quitRequested]
    · exact Outcome.untroubled_after (untroubled_consult _ s) rfl

/-- Whether the beeper fails makes no difference to a run, but for what is told of it. -/
theorem untroubled_ticks (l : Loop) (ss : List (Surroundings δ)) :
    (l.ticks (ss.map (·.reliable))).map (·.untroubled) = (l.ticks ss).map (·.untroubled) := by
  induction ss generalizing l with
  | nil => rfl
  | cons s rest ih =>
    have htick := l.untroubled_tick s
    have hloop : (l.tick s.reliable).untroubled.loop = (l.tick s).untroubled.loop :=
      congrArg Outcome.loop htick
    change (l.tick s.reliable).loop = (l.tick s).loop at hloop
    show (l.tick s.reliable).untroubled ::
        ((l.tick s.reliable).loop.ticks (rest.map (·.reliable))).map (·.untroubled) = _
    rw [htick, hloop, ih]
    rfl

theorem switchings_history (l : Loop) (ss : List (Surroundings δ)) :
    switchings (l.history ss) =
      ((l.ticks ss).map (·.untroubled)).flatMap fun o => switchings o.happenings := by
  rw [history, switchings, List.filterMap_flatMap, List.flatMap_map]
  exact List.flatMap_congr fun o _ => (switchings_withoutTrouble o.happenings).symm

/-! ## The protocol -/

/-- The protocol of the beeper. Its calls alternate, the first switching it on. After a tick that
has executed an instruction, the last call has switched it on exactly if the sound timer runs. And
runs among surroundings that differ at most in how the beeper answers come to the same: tick by
tick they have the same results, the same loops and the same happenings, but for what is told of a
beeper that fails, and so they call the beeper in the same way. -/
theorem beeper_protocol {l : Loop} (hsilent : l.beeping = false) (ss : List (Surroundings δ)) :
    Alternates false (switchings (l.history ss)) ∧
    (∀ s m advance next, (l.afterTicks ss).executes? s = some m → m.step = .ok (advance, next) →
      (lastSwitch? (l.history (ss ++ [s])) = some true ↔
        0 < (l.afterTicks (ss ++ [s])).machine.sound)) ∧
    ∀ ts : List (Surroundings δ), ts.map (·.reliable) = ss.map (·.reliable) →
      (l.ticks ts).map (·.untroubled) = (l.ticks ss).map (·.untroubled) ∧
        switchings (l.history ts) = switchings (l.history ss) := by
  refine ⟨?_, ?_, ?_⟩
  · rw [← hsilent]
    exact l.alternates_history ss
  · intro s m advance next hm hstep
    rw [lastSwitch?_history_eq_some_true_iff hsilent, afterTicks_concat]
    exact beeping_tick_of_step hm hstep
  · intro ts hsame
    have hticks : (l.ticks ts).map (·.untroubled) = (l.ticks ss).map (·.untroubled) := by
      rw [← untroubled_ticks, hsame, untroubled_ticks]
    refine ⟨hticks, ?_⟩
    rw [switchings_history, hticks, ← switchings_history]

/-- A beeper that fails is switched on by the second tick and off by the fourth. -/
theorem beeper_protocol_failing :
    let l : Loop := { machine := {
      ram := ({} : Ram).writeAll 0x200 [0x61, 0x03, 0xF1, 0x18, 0x12, 0x04] } }
    let idle : Surroundings Unit :=
      { poll := .ok {}, debugger := none, invalidate := none, draw := none, beeper := none }
    let broken : Surroundings Unit := { idle with beeper := some "broken" }
    let ss := [broken, broken, broken]
    l.beeping = false ∧ switchings (l.history (ss ++ [broken])) = [true, false] ∧
      Alternates false (switchings (l.history ss)) ∧
      (∃ m advance next, (l.afterTicks ss).executes? broken = some m ∧
        m.step = .ok (advance, next) ∧ (l.afterTicks (ss ++ [broken])).machine.sound = 0 ∧
        lastSwitch? (l.history (ss ++ [broken])) ≠ some true) ∧
      (l.ticks [idle, idle, idle]).map (·.untroubled) = (l.ticks ss).map (·.untroubled) := by
  intro l idle broken ss
  have hcalls : switchings (l.history (ss ++ [broken])) = [true, false] := by decide +kernel
  have hexecutes : ((l.afterTicks ss).executes? broken).any fun m => m.step.toOption.isSome := by
    decide +kernel
  have hsound : (l.afterTicks (ss ++ [broken])).machine.sound = 0 := by decide +kernel
  obtain ⟨m, hm, hok⟩ := (Option.any_eq_true _ _).mp hexecutes
  obtain ⟨halternates, hlast, hsame⟩ := beeper_protocol (l := l) rfl ss
  obtain ⟨hticks, -⟩ := hsame [idle, idle, idle] rfl
  refine ⟨rfl, hcalls, halternates, ?_, hticks⟩
  cases hstep : m.step with
  | error fault =>
    rw [hstep] at hok
    cases hok
  | ok result =>
    obtain ⟨advance, next⟩ := result
    refine ⟨m, advance, next, hm, hstep, hsound, fun hon => ?_⟩
    have hpos := (hlast broken m advance next hm hstep).mp hon
    rw [hsound] at hpos
    exact absurd hpos (by decide)

end Loop
end ChipEight
