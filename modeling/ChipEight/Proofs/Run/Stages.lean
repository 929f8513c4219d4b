import ChipEight.Proofs.Run.Beeper

/-!
# The stages of a tick

The events of a tick are heard first: keys change, the debugger is turned on or off, and a key goes
to an instruction that waits for one. A tick that goes on has two more stages. The debugger may meet
the machine, and the machine may execute an instruction. Both are read off here without the rest of
the tick, and the tick is put together from its stages again.
-/

namespace ChipEight

open Debugger (Action)

variable {δ : Type}

/-! ## Moments -/

/-- What a tick comes to as far as the debugger and the program are concerned. -/
inductive Moment
  /-- The debugger looks at a machine at an address, and answers. -/
  | look (pc : UInt16) (action : Action)
  /-- An instruction at an address is executed. -/
  | instruction (pc : UInt16)
  deriving DecidableEq

/-- The moment that a happening tells of. -/
def Happening.moment? : Happening → Option Moment
  | .paused pc action => some (.look pc action)
  | .notice (.executing pc _) => some (.instruction pc)
  | .notice _ | .invalidated | .beep | .stop | .drawn _ _ => none

/-- The moments that an outcome tells of. -/
def Outcome.moments (o : Outcome δ) : List Moment := o.happenings.filterMap Happening.moment?

theorem filterMap_of_silent {α : Type} {f : Happening → Option α} {happenings : List Happening}
    (h : Silent f happenings) : happenings.filterMap f = [] :=
  List.filterMap_eq_nil_iff.mpr h

theorem Outcome.moments_after (o : Outcome δ) {earlier : List Happening}
    (h : Silent Happening.moment? earlier) : (o.after earlier).moments = o.moments := by
  rw [moments, after, List.filterMap_append, filterMap_of_silent h]
  rfl

/-- An outcome after the debugger has looked. -/
def Outcome.afterLook (o : Outcome δ) (pc : UInt16) (v : Visit δ) : Outcome δ :=
  { o.after (v.notices.map Happening.notice ++ [.paused pc v.action]) with kept := some v.kept }

/-- What a debugger tells of instructions by itself. -/
def Visit.claims (v : Visit δ) : List Moment :=
  (v.notices.map Happening.notice).filterMap Happening.moment?

/-- What the debugger tells comes before its look, and the rest of the tick after it. -/
theorem Outcome.moments_afterLook (o : Outcome δ) (pc : UInt16) (v : Visit δ) :
    (o.afterLook pc v).moments = v.claims ++ [.look pc v.action] ++ o.moments := by
  rw [moments, afterLook, after, List.filterMap_append, List.filterMap_append]
  rfl

/-- A machine after its instruction and the tick of the timers that follows, with its screen drawn. An
instruction that fails halts it. -/
def Machine.executed (m : Machine) : Machine :=
  match m.step with
  | .error _ => m.halt
  | .ok (_, next) => { next.tickTimers with redraw := false }

/-- The debugger meets a machine. -/
structure Meeting (δ : Type) where
  seen : Machine
  visit : Visit δ

namespace Loop

/-! ## The stages -/

/-- The loop after the events of a tick were heard. -/
def heard (l : Loop) (events : Events) (attached : Bool) : Loop :=
  let l := { l with machine := applyKeys l.machine events.changes }
  let l := (l.turnDebugger events attached).1
  { l with machine := deliver l.machine events }

/-- The loop after the events of a tick were heard, if the tick goes on: the input does not fail and
the user does not quit. -/
def heard? (l : Loop) (s : Surroundings δ) : Option Loop :=
  match s.poll with
  | .error _ => none
  | .ok events => if events.quit then none else some (l.heard events s.debugger.isSome)

/-- How the debugger meets the machine of a loop, if it is to look at it. -/
def encounter? (l : Loop) (s : Surroundings δ) : Option (Meeting δ) :=
  match s.debugger with
  | none => none
  | some visit =>
    if l.shouldPause then some { seen := l.machine, visit := visit l.machine } else none

/-- How the debugger meets the machine in a tick, if it does. -/
def meeting? (l : Loop) (s : Surroundings δ) : Option (Meeting δ) :=
  (l.heard? s).bind (·.encounter? s)

/-- The machine of a loop if it is to execute an instruction in its turn. -/
def acts? (l : Loop) : Option Machine :=
  if l.machine.runState = .running then some l.machine else none

/-- The machine that executes an instruction in a tick, if it does. -/
def executes? (l : Loop) (s : Surroundings δ) : Option Machine := (l.turn? s).bind acts?

/-- The machine that a tick has come to when an instruction is due: keys have changed, a key may
have been handed to an instruction that waited for it, and the debugger may have done something. -/
def prepared (l : Loop) (s : Surroundings δ) : Machine :=
  match s.poll with
  | .error _ => l.machine
  | .ok events =>
    if events.quit then applyKeys l.machine events.changes
    else ((l.meeting? s).map (·.visit.machine)).getD (l.heard events s.debugger.isSome).machine

/-- The machines that execute an instruction in ticks among given surroundings, one after
another. -/
def executions (l : Loop) : List (Surroundings δ) → List Machine
  | [] => []
  | s :: rest => (l.executes? s).toList ++ (l.tick s).loop.executions rest

variable {l k : Loop} {s : Surroundings δ}

theorem heard_eq (l : Loop) (events : Events) (attached : Bool) :
    l.heard events attached =
      { l with
        machine := deliver (applyKeys l.machine events.changes) events
        debugging := !events.exitDebug && (l.debugging || events.enterDebug && attached)
        stepping := !events.exitDebug && (l.stepping || events.enterDebug && attached) } := by
  unfold heard
  dsimp only
  rw [loop_turnDebugger]

theorem shouldPause_iff :
    l.shouldPause = true ↔ l.debugging = true ∧ l.machine.runState = .running ∧
      (l.stepping = true ∨ l.machine.breakpoints.contains l.machine.pc = true) := by
  simp only [shouldPause, Bool.and_eq_true, Bool.or_eq_true, beq_iff_eq, and_assoc]

/-! ## A tick from its stages -/

/-- What a tick can be: its poll fails; the user quits; the debugger does not look, and the machine
has its turn; or the debugger looks, and what it wants is done. -/
inductive Stages (l : Loop) (s : Surroundings δ) : Prop
  | fails (cause : IoError) (hpoll : s.poll = .error cause)
      (hmeeting : l.meeting? s = none) (hturn : l.turn? s = none)
      (htick : l.tick s = { loop := l, result := .error (.io cause), happenings := [] })
  | quits (events : Events) (hpoll : s.poll = .ok events) (hquit : events.quit = true)
      (hmeeting : l.meeting? s = none) (hturn : l.turn? s = none)
      (htick :
        let last := { l with machine := applyKeys l.machine events.changes }.halt s.beeper
        l.tick s = { loop := last.1, result := .ok .halted
                     happenings := .notice .quitRequested :: last.2 })
  | proceeds (events : Events) (k : Loop) (told : List Happening)
      (hpoll : s.poll = .ok events) (hquit : events.quit = false)
      (hheard : l.heard events s.debugger.isSome = k)
      (htold : ∀ x ∈ told, x = .notice .noDebugger)
      (hpause : s.debugger.isSome → k.shouldPause = false)
      (hmeeting : l.meeting? s = none) (hturn : l.turn? s = some k)
      (htick : l.tick s = (k.proceed s).after told)
  | meets (events : Events) (k : Loop) (told : List Happening) (visit : Machine → Visit δ)
      (hpoll : s.poll = .ok events) (hquit : events.quit = false)
      (hheard : l.heard events s.debugger.isSome = k)
      (htold : ∀ x ∈ told, x = .notice .noDebugger)
      (hpause : k.shouldPause = true) (hdebugger : s.debugger = some visit)
      (hmeeting : l.meeting? s = some { seen := k.machine, visit := visit k.machine })
      (hturn : l.turn? s = k.afterVisit? s (visit k.machine))
      (htick : l.tick s = (k.obey s (visit k.machine)).after told)

theorem stages (l : Loop) (s : Surroundings δ) : l.Stages s := by
  cases hpoll : s.poll with
  | error cause =>
    have hheard : l.heard? s = none := by rw [heard?, hpoll]
    refine .fails cause hpoll ?_ ?_ ?_
    · rw [meeting?, hheard]
      rfl
    · rw [turn?, hpoll]
    · rw [tick, hpoll]
  | ok events =>
    cases hquit : events.quit with
    | true =>
      have hheard : l.heard? s = none := by
        rw [heard?, hpoll]
        exact if_pos hquit
      refine .quits events hpoll hquit ?_ ?_ ?_
      · rw [meeting?, hheard]
        rfl
      · rw [turn?, hpoll]
        exact if_pos hquit
      · rw [tick, hpoll]
        exact if_pos hquit
    | false =>
      have hheard : l.heard? s = some (l.heard events s.debugger.isSome) := by
        rw [heard?, hpoll]
        exact if_neg (ne_true_of_eq_false hquit)
      have hmeeting : l.meeting? s = (l.heard events s.debugger.isSome).encounter? s := by
        rw [meeting?, hheard]
        rfl
      have hturn : l.turn? s = (l.heard events s.debugger.isSome).afterConsult? s := by
        rw [turn?, hpoll]
        exact if_neg (ne_true_of_eq_false hquit)
      have htick : ∃ told : List Happening, (∀ x ∈ told, x = .notice .noDebugger) ∧
          l.tick s = ((l.heard events s.debugger.isSome).consult s).after told := by
        rw [tick, hpoll]
        dsimp only
        rw [if_neg (ne_true_of_eq_false hquit)]
        exact ⟨_, fun x hx => mem_turnDebugger hx, rfl⟩
      obtain ⟨told, htold, htick⟩ := htick
      generalize hk : l.heard events s.debugger.isSome = k at hmeeting hturn htick
      unfold encounter? at hmeeting
      unfold afterConsult? at hturn
      unfold consult at htick
      cases hdebugger : s.debugger with
      | none =>
        rw [hdebugger] at hmeeting hturn htick
        refine .proceeds events k told hpoll hquit hk htold ?_ hmeeting hturn htick
        rw [hdebugger]
        exact nofun
      | some visit =>
        rw [hdebugger] at hmeeting hturn htick
        dsimp only at hmeeting hturn htick
        by_cases hpause : k.shouldPause
        · rw [if_pos hpause] at hmeeting hturn htick
          exact .meets events k told visit hpoll hquit hk htold hpause hdebugger hmeeting hturn
            htick
        · rw [if_neg hpause] at hmeeting hturn htick
          exact .proceeds events k told hpoll hquit hk htold
            (fun _ => eq_false_of_ne_true hpause) hmeeting hturn htick

/-- A machine that does not run once the user has been heard is not looked at and executes
nothing. -/
theorem unmet_of_resting {events : Events} (hpoll : s.poll = .ok events)
    (hresting : (l.heard events s.debugger.isSome).machine.runState ≠ .running) :
    l.meeting? s = none ∧ l.executes? s = none := by
  rw [executes?]
  cases l.stages s with
  | fails cause hfails hmeeting hturn =>
    rw [hturn]
    exact ⟨hmeeting, rfl⟩
  | quits _ hpoll' hquit hmeeting hturn =>
    rw [hturn]
    exact ⟨hmeeting, rfl⟩
  | proceeds _ k told hpoll' hquit hheard htold hpause hmeeting hturn =>
    obtain rfl := Except.ok.inj (hpoll.symm.trans hpoll')
    rw [hheard] at hresting
    rw [hturn]
    exact ⟨hmeeting, if_neg hresting⟩
  | meets _ k told visit hpoll' hquit hheard htold hpause =>
    obtain rfl := Except.ok.inj (hpoll.symm.trans hpoll')
    rw [hheard] at hresting
    exact absurd (shouldPause_iff.mp hpause).2.1 hresting

theorem loop_halt (l : Loop) (answer : Option String) :
    (l.halt answer).1 = { l with machine := l.machine.halt, beeping := false } :=
  loop_setBeeper _ _ _

/-- The loop after a visit of the debugger that lets the machine go on. -/
def visited (l : Loop) (v : Visit δ) : Loop :=
  { l with machine := v.machine.requestRedraw, stepping := v.action == .step }

theorem afterVisit?_eq (l : Loop) {v : Visit δ} (hquit : v.action ≠ .quit)
    (hinvalidate : s.invalidate = none) : l.afterVisit? s v = some (l.visited v) := by
  refine if_neg ?_
  rintro (h | h)
  · exact hquit h
  · rw [hinvalidate] at h
    cases h

theorem afterVisit?_eq_none (l : Loop) {v : Visit δ}
    (h : v.action = .quit ∨ s.invalidate.isSome) : l.afterVisit? s v = none := if_pos h

theorem visited_of_afterVisit? {v : Visit δ} (h : l.afterVisit? s v = some k) : l.visited v = k :=
  Option.some.inj (Option.ite_none_left_eq_some.mp h).2

/-- A visit that lets the machine go on. -/
theorem obey_of_ne_quit (l : Loop) {v : Visit δ} (hquit : v.action ≠ .quit)
    (hinvalidate : s.invalidate = none) :
    l.obey s v = (((l.visited v).proceed s).after [.invalidated]).afterLook l.machine.pc v := by
  obtain ⟨action, machine, notices, kept⟩ := v
  unfold obey
  cases action with
  | quit => exact absurd rfl hquit
  | _ =>
    dsimp only
    rw [hinvalidate]
    rfl

/-- A visit after which the display cannot forget its picture. -/
theorem obey_of_failure (l : Loop) {v : Visit δ} {cause : IoError} (hquit : v.action ≠ .quit)
    (hinvalidate : s.invalidate = some cause) :
    l.obey s v =
      Outcome.afterLook
        { loop := { l with machine := v.machine, stepping := v.action == .step }
          result := .error (.io cause), happenings := [] } l.machine.pc v := by
  obtain ⟨action, machine, notices, kept⟩ := v
  unfold obey
  cases action with
  | quit => exact absurd rfl hquit
  | _ =>
    dsimp only
    rw [hinvalidate]
    rfl

/-- A visit that ends the run. -/
theorem obey_of_quit (l : Loop) {v : Visit δ} (hquit : v.action = .quit) :
    let last := { l with machine := v.machine }.halt s.beeper
    l.obey s v =
      Outcome.afterLook
        { loop := last.1, result := .ok .halted
          happenings := .notice .quitFromDebugger :: last.2 } l.machine.pc v := by
  obtain ⟨action, machine, notices, kept⟩ := v
  obtain rfl : action = .quit := hquit
  rfl

/-! ## What a turn does to the loop -/

theorem loop_advance (l : Loop) (s : Surroundings δ) :
    (l.advance s).loop =
      { l with machine := l.machine.executed, beeping := (l.advance s).loop.beeping } := by
  rw [Machine.executed]
  cases hstep : l.machine.step with
  | error fault => rw [advance_of_error s hstep, loop_halt]
  | ok result =>
    have hpaint := loop_paint (l.follow result.2 s.beeper).1 s
    have hfollow := loop_setBeeper { l with machine := result.2.tickTimers }
      (result.2.tickTimers.sound > 0) s.beeper
    rw [advance_of_ok s hstep, Outcome.after, hpaint, follow, hfollow]

/-- A turn changes nothing but the machine and the beeper. -/
theorem loop_proceed (l : Loop) (s : Surroundings δ) :
    ∃ machine beeping, (l.proceed s).loop = { l with machine, beeping } := by
  unfold proceed
  cases l.machine.runState with
  | halted => exact ⟨_, _, rfl⟩
  | waiting => exact ⟨_, _, l.loop_paint s⟩
  | running => exact ⟨_, _, l.loop_advance s⟩

theorem machine_proceed_of_rests (h : l.acts? = none) (s : Surroundings δ) :
    ∃ redraw, (l.proceed s).loop.machine = { l.machine with redraw } := by
  have hresting : l.machine.runState ≠ .running := by
    intro hrunning
    rw [acts?, if_pos hrunning] at h
    cases h
  unfold proceed
  cases hstate : l.machine.runState with
  | halted => exact ⟨_, rfl⟩
  | waiting =>
    have hpaint := congrArg Loop.machine (l.loop_paint s)
    exact ⟨_, hpaint⟩
  | running => exact absurd hstate hresting

/-- A tick in which no instruction is executed may halt the machine or draw it, and does nothing
else to it. -/
theorem machine_tick_of_rests (h : l.executes? s = none) :
    ∃ running redraw, (l.tick s).loop.machine = { l.prepared s with running, redraw } := by
  rw [executes?] at h
  unfold prepared
  cases l.stages s with
  | fails cause hpoll hmeeting hturn htick =>
    rw [htick, hpoll]
    exact ⟨_, _, rfl⟩
  | quits events hpoll hquit hmeeting hturn htick =>
    rw [htick, hpoll, loop_halt]
    dsimp only
    rw [if_pos hquit]
    exact ⟨_, _, rfl⟩
  | proceeds events k told hpoll hquit hheard htold hpause hmeeting hturn htick =>
    rw [hturn] at h
    obtain ⟨redraw, hmachine⟩ := machine_proceed_of_rests h s
    rw [htick, hpoll, hmeeting]
    dsimp only
    rw [if_neg (ne_true_of_eq_false hquit), hheard]
    exact ⟨_, _, hmachine⟩
  | meets events k told visit hpoll hquit hheard htold hpause hdebugger hmeeting hturn htick =>
    rw [htick, hpoll, hmeeting]
    dsimp only
    rw [if_neg (ne_true_of_eq_false hquit)]
    by_cases hquits : (visit k.machine).action = .quit
    · rw [k.obey_of_quit hquits, loop_halt]
      exact ⟨_, _, rfl⟩
    · cases hinvalidate : s.invalidate with
      | some cause =>
        rw [k.obey_of_failure hquits hinvalidate]
        exact ⟨_, _, rfl⟩
      | none =>
        rw [hturn, k.afterVisit?_eq hquits hinvalidate] at h
        obtain ⟨redraw, hmachine⟩ := machine_proceed_of_rests h s
        rw [k.obey_of_ne_quit hquits hinvalidate]
        exact ⟨_, _, hmachine⟩

/-- The machine that executes an instruction in a tick runs, and this is what becomes of it. -/
theorem machine_tick_of_executes? {m : Machine} (h : l.executes? s = some m) :
    m.runState = .running ∧ (l.tick s).loop.machine = m.executed := by
  obtain ⟨turn, hturn, hacts⟩ := Option.bind_eq_some_iff.mp h
  obtain ⟨hrunning, hm⟩ := Option.ite_none_right_eq_some.mp hacts
  obtain rfl := Option.some.inj hm
  have hcourse := l.course_tick s
  rw [hturn] at hcourse
  cases hcourse with
  | proceeds turn told hbeeping hquiet hloop hresult hhappenings =>
    rw [hloop, proceed, hrunning]
    exact ⟨rfl, congrArg Loop.machine (loop_advance _ s)⟩

/-! ## What a tick tells of its stages -/

theorem silent_halt (l : Loop) (answer : Option String) :
    Silent Happening.moment? (l.halt answer).2 :=
  silent_setBeeper rfl rfl (fun _ => rfl) _ _ _

theorem moments_paint (l : Loop) (s : Surroundings δ) : (l.paint s).moments = [] := by
  unfold paint
  dsimp only
  split
  · split <;> rfl
  · rfl

/-- An instruction is told of before anything that it brings about. -/
theorem moments_advance (l : Loop) (s : Surroundings δ) :
    (l.advance s).moments = if l.verbose then [.instruction l.machine.pc] else [] := by
  have htrace : l.trace.filterMap Happening.moment? =
      if l.verbose then [.instruction l.machine.pc] else [] := by
    unfold trace
    split <;> rfl
  cases hstep : l.machine.step with
  | error fault =>
    rw [advance_of_error s hstep, Outcome.moments, List.filterMap_append, htrace,
      filterMap_of_silent ((l.silent_halt s.beeper).cons rfl), List.append_nil]
  | ok result =>
    have hswitch : Silent Happening.moment? (l.follow result.2 s.beeper).2 :=
      silent_setBeeper rfl rfl (fun _ => rfl) _ _ _
    have hpaint := moments_paint (l.follow result.2 s.beeper).1 s
    rw [Outcome.moments] at hpaint
    rw [advance_of_ok s hstep, Outcome.moments, Outcome.after, List.filterMap_append,
      List.filterMap_append, htrace, filterMap_of_silent hswitch, hpaint, List.append_nil,
      List.append_nil]

theorem moments_proceed (l : Loop) (s : Surroundings δ) :
    (l.proceed s).moments =
      if l.verbose then l.acts?.toList.map fun m => .instruction m.pc else [] := by
  unfold proceed acts?
  cases l.machine.runState with
  | halted => exact (ite_self _).symm
  | waiting => exact (l.moments_paint s).trans (ite_self _).symm
  | running => exact l.moments_advance s

theorem moments_obey (l : Loop) (s : Surroundings δ) (v : Visit δ) :
    (l.obey s v).moments = v.claims ++ [.look l.machine.pc v.action] ++
      if l.verbose then ((l.afterVisit? s v).bind acts?).toList.map fun m => .instruction m.pc
      else [] := by
  by_cases hquit : v.action = .quit
  · rw [l.obey_of_quit hquit, Outcome.moments_afterLook, l.afterVisit?_eq_none (.inl hquit)]
    refine congrArg (v.claims ++ [.look l.machine.pc v.action] ++ ·) ?_
    exact (filterMap_of_silent ((silent_halt _ s.beeper).cons rfl)).trans (ite_self _).symm
  · cases hinvalidate : s.invalidate with
    | some cause =>
      rw [l.obey_of_failure hquit hinvalidate, Outcome.moments_afterLook,
        l.afterVisit?_eq_none (.inr (by rw [hinvalidate]; rfl))]
      exact congrArg (v.claims ++ [.look l.machine.pc v.action] ++ ·) (ite_self _).symm
    | none =>
      rw [l.obey_of_ne_quit hquit hinvalidate, Outcome.moments_afterLook,
        Outcome.moments_after _ (silent_singleton rfl), l.afterVisit?_eq hquit hinvalidate]
      exact congrArg (v.claims ++ [.look l.machine.pc v.action] ++ ·) (moments_proceed _ s)

/-- A tick tells of the debugger's look, if there is one, and then of the instruction that is
executed, if there is one and the loop tells of instructions; and of nothing else, but for what the
debugger says itself before. -/
theorem moments_tick (l : Loop) (s : Surroundings δ) :
    (l.tick s).moments =
      ((l.meeting? s).toList.flatMap fun x =>
        x.visit.claims ++ [.look x.seen.pc x.visit.action]) ++
      if l.verbose then (l.executes? s).toList.map fun m => .instruction m.pc else [] := by
  rw [executes?]
  cases l.stages s with
  | fails cause hpoll hmeeting hturn htick =>
    rw [htick, hmeeting, hturn]
    exact (ite_self _).symm
  | quits events hpoll hquit hmeeting hturn htick =>
    rw [htick, hmeeting, hturn]
    exact (filterMap_of_silent ((silent_halt _ s.beeper).cons rfl)).trans (ite_self _).symm
  | proceeds events k told hpoll hquit hheard htold hpause hmeeting hturn htick =>
    have hk : k.verbose = l.verbose := by rw [← hheard, heard_eq]
    rw [htick, hmeeting, hturn, Outcome.moments_after _ (silent_of_forall_eq rfl htold), ← hk]
    exact k.moments_proceed s
  | meets events k told visit hpoll hquit hheard htold hpause hdebugger hmeeting hturn htick =>
    have hk : k.verbose = l.verbose := by rw [← hheard, heard_eq]
    rw [htick, hmeeting, hturn, Outcome.moments_after _ (silent_of_forall_eq rfl htold), ← hk,
      Option.toList_some, List.flatMap_singleton]
    exact k.moments_obey s (visit k.machine)

theorem kept_proceed (l : Loop) (s : Surroundings δ) : (l.proceed s).kept = none := by
  have hpaint : ∀ k : Loop, (k.paint s).kept = none := by
    intro k
    unfold paint
    dsimp only
    split
    · split <;> rfl
    · rfl
  unfold proceed
  cases l.machine.runState with
  | halted => rfl
  | waiting => exact hpaint l
  | running =>
    cases hstep : l.machine.step with
    | error fault => exact congrArg Outcome.kept (advance_of_error s hstep)
    | ok result =>
      exact (congrArg Outcome.kept (advance_of_ok s hstep)).trans (hpaint _)

/-- The debugger keeps something exactly from the ticks in which it meets the machine. -/
theorem kept_tick (l : Loop) (s : Surroundings δ) :
    (l.tick s).kept = (l.meeting? s).map (·.visit.kept) := by
  cases l.stages s with
  | fails cause hpoll hmeeting hturn htick =>
    rw [htick, hmeeting]
    rfl
  | quits events hpoll hquit hmeeting hturn htick =>
    rw [htick, hmeeting]
    rfl
  | proceeds events k told hpoll hquit hheard htold hpause hmeeting hturn htick =>
    rw [htick, hmeeting]
    exact k.kept_proceed s
  | meets events k told visit hpoll hquit hheard htold hpause hdebugger hmeeting hturn htick =>
    rw [htick, hmeeting]
    rfl

end Loop
end ChipEight
