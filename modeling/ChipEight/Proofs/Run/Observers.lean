import ChipEight.Proofs.Machine.Unread
import ChipEight.Proofs.Run.Stages

/-!
# Observing debuggers

A debugger that leaves the machine alone and lets it go on makes no difference to a run, whenever it
looks: every tick has the same result, the beeper is called in the same way, and the machines agree.
Only the screen may be drawn more often, since it is to be drawn after every look.
-/

namespace ChipEight

open Debugger (Action)

variable {δ : Type}

/-! ## Machines that agree but for what is to be drawn -/

/-- Two machines agree in every field, except perhaps in whether the screen is to be drawn. -/
def Machine.SameButRedraw (m t : Machine) : Prop := m.requestRedraw = t.requestRedraw

namespace Machine.SameButRedraw

variable {m t : Machine}

/-- Whatever is read without the request to draw is the same. -/
theorem read_eq {α : Type} (h : SameButRedraw m t) {read : Machine → α}
    (hread : ∀ m, read m.requestRedraw = read m) : read m = read t := by
  calc read m = read m.requestRedraw := (hread m).symm
    _ = read t.requestRedraw := congrArg read h
    _ = read t := hread t

/-- What commutes with a request for the screen to be drawn keeps the agreement. -/
theorem map (h : SameButRedraw m t) (g : Machine → Machine)
    (hg : ∀ m, g m.requestRedraw = (g m).requestRedraw) : SameButRedraw (g m) (g t) := by
  calc (g m).requestRedraw = g m.requestRedraw := (hg m).symm
    _ = g t.requestRedraw := congrArg g h
    _ = (g t).requestRedraw := hg t

/-- Machines that agree step alike. -/
theorem step_cases (h : SameButRedraw m t) :
    (∃ fault, m.step = .error fault ∧ t.step = .error fault) ∨
    ∃ advance next next', m.step = .ok (advance, next) ∧ t.step = .ok (advance, next') ∧
      SameButRedraw next next' := by
  have hanswer : m.requestRedraw.step = t.requestRedraw.step := congrArg Machine.step h
  rw [step_requestRedraw, step_requestRedraw] at hanswer
  cases hm : m.step with
  | error fault =>
    cases ht : t.step with
    | error fault' =>
      rw [hm, ht] at hanswer
      cases hanswer
      exact .inl ⟨fault, rfl, rfl⟩
    | ok =>
      rw [hm, ht] at hanswer
      cases hanswer
  | ok result =>
    cases ht : t.step with
    | error =>
      rw [hm, ht] at hanswer
      cases hanswer
    | ok result' =>
      rw [hm, ht] at hanswer
      obtain ⟨hadvance, hnext⟩ := Prod.mk.inj (Except.ok.inj hanswer)
      obtain ⟨advance, next⟩ := result
      obtain rfl : advance = result'.1 := hadvance
      exact .inr ⟨_, _, _, rfl, rfl, hnext⟩

end Machine.SameButRedraw

open Machine (SameButRedraw)

/-! ## Loops and outcomes that match -/

/-- Two loops run machines that agree, with their beepers switched alike. -/
structure Loop.Matches (l k : Loop) : Prop where
  machine : SameButRedraw l.machine k.machine
  beeping : l.beeping = k.beeping

theorem Loop.Matches.runState_eq {l k : Loop} (h : l.Matches k) :
    l.machine.runState = k.machine.runState := h.machine.read_eq fun _ => rfl

/-- Two outcomes have the same result and call the beeper in the same way, and their loops match. -/
structure Outcome.Matches (o p : Outcome δ) : Prop where
  result : o.result = p.result
  switchings : switchings o.happenings = switchings p.happenings
  loop : o.loop.Matches p.loop

theorem Outcome.Matches.after {o p : Outcome δ} (h : o.Matches p) {xs ys : List Happening}
    (heq : ChipEight.switchings xs = ChipEight.switchings ys) :
    (o.after xs).Matches (p.after ys) := by
  refine ⟨h.result, ?_, h.loop⟩
  show ChipEight.switchings (xs ++ o.happenings) = ChipEight.switchings (ys ++ p.happenings)
  rw [switchings_append, switchings_append, heq, h.switchings]

namespace Loop

variable {l k : Loop} {s : Surroundings δ}

/-! ## Parts of a tick -/

theorem applyKeys_requestRedraw (changes : List KeyChange) (m : Machine) :
    applyKeys m.requestRedraw changes = (applyKeys m changes).requestRedraw := by
  induction changes generalizing m with
  | nil => rfl
  | cons change rest ih => exact ih (m.setKey change.key change.down)

theorem deliver_requestRedraw (events : Events) (m : Machine) :
    deliver m.requestRedraw events = (deliver m events).requestRedraw := by
  have hstate : m.requestRedraw.runState = m.runState := rfl
  have hawaiting : m.requestRedraw.awaiting = m.awaiting := rfl
  unfold deliver
  rw [hstate]
  split
  · rw [Machine.deliverKey, Machine.deliverKey, hawaiting]
    cases m.awaiting <;> rfl
  · rfl

/-- Events are heard alike, whether a debugger is attached or not. -/
theorem Matches.heard (h : l.Matches k) (events : Events) (attached attached' : Bool) :
    (l.heard events attached).Matches (k.heard events attached') := by
  rw [heard_eq, heard_eq]
  have hkeys := h.machine.map (applyKeys · events.changes) (applyKeys_requestRedraw events.changes)
  exact ⟨hkeys.map (deliver · events) (deliver_requestRedraw events), h.beeping⟩

theorem Matches.setBeeper (h : l.Matches k) (on : Bool) (answer : Option String) :
    (l.setBeeper on answer).1.Matches (k.setBeeper on answer).1 ∧
      (l.setBeeper on answer).2 = (k.setBeeper on answer).2 := by
  constructor
  · rw [loop_setBeeper, loop_setBeeper]
    exact ⟨h.machine, rfl⟩
  · unfold Loop.setBeeper
    rw [h.beeping]
    split <;> rfl

theorem Matches.halt (h : l.Matches k) (answer : Option String) :
    (l.halt answer).1.Matches (k.halt answer).1 ∧ (l.halt answer).2 = (k.halt answer).2 := by
  have hhalt : Loop.Matches { l with machine := l.machine.halt }
      { k with machine := k.machine.halt } := ⟨h.machine.map Machine.halt fun _ => rfl, h.beeping⟩
  exact hhalt.setBeeper false answer

/-- Where drawing cannot fail, it makes no difference whether the screen is drawn. -/
theorem Matches.paint (h : l.Matches k) (hdraw : s.draw = none) :
    (l.paint s).Matches (k.paint s) := by
  have hresult : ∀ j : Loop, (j.paint s).result = .ok j.machine.runState := by
    intro j
    unfold Loop.paint
    dsimp only [Machine.takeRedraw]
    rw [hdraw]
    split <;> rfl
  refine ⟨?_, ?_, ?_⟩
  · rw [hresult, hresult, h.runState_eq]
  · rw [switchings_paint, switchings_paint]
  · rw [loop_paint, loop_paint]
    exact ⟨h.machine, h.beeping⟩

theorem Matches.advance (h : l.Matches k) (hdraw : s.draw = none) :
    (l.advance s).Matches (k.advance s) := by
  obtain ⟨fault, hl, hk⟩ | ⟨advance, next, next', hl, hk, hnext⟩ := h.machine.step_cases
  · rw [advance_of_error s hl, advance_of_error s hk]
    obtain ⟨hloop, heq⟩ := h.halt s.beeper
    refine ⟨rfl, ?_, hloop⟩
    rw [switchings_append, switchings_append, switchings_trace, switchings_trace, heq]
  · rw [advance_of_ok s hl, advance_of_ok s hk]
    have htimers : SameButRedraw next.tickTimers next'.tickTimers :=
      hnext.map Machine.tickTimers fun _ => rfl
    have hsound : next.tickTimers.sound = next'.tickTimers.sound :=
      htimers.read_eq fun _ => rfl
    have hticked : Loop.Matches { l with machine := next.tickTimers }
        { k with machine := next'.tickTimers } := ⟨htimers, h.beeping⟩
    obtain ⟨hloop, heq⟩ := hticked.setBeeper (next.tickTimers.sound > 0) s.beeper
    have hfollow : (l.follow next s.beeper).1.Matches (k.follow next' s.beeper).1 := by
      rw [follow, follow, ← hsound]
      exact hloop
    refine (hfollow.paint hdraw).after ?_
    rw [switchings_append, switchings_append, switchings_trace, switchings_trace, follow, follow,
      ← hsound, heq]

theorem Matches.proceed (h : l.Matches k) (hdraw : s.draw = none) :
    (l.proceed s).Matches (k.proceed s) := by
  unfold Loop.proceed
  rw [h.runState_eq]
  cases k.machine.runState with
  | halted => exact ⟨rfl, rfl, h⟩
  | waiting => exact h.paint hdraw
  | running => exact h.advance hdraw

end Loop

/-! ## Debuggers that observe -/

/-- A debugger, if there is one, leaves the machine alone and does not quit, and the display does
not fail. -/
structure Surroundings.Observed (s : Surroundings δ) : Prop where
  leaves : ∀ visit, s.debugger = some visit → ∀ m, (visit m).machine = m
  goesOn : ∀ visit, s.debugger = some visit → ∀ m, (visit m).action ≠ .quit
  invalidate : s.invalidate = none
  draw : s.draw = none

/-- The same surroundings without a debugger. -/
def Surroundings.unattended (s : Surroundings δ) : Surroundings δ := { s with debugger := none }

namespace Loop

variable {l k : Loop} {s : Surroundings δ}

theorem tick_unattended_of_quit (k : Loop) {events : Events} (hpoll : s.poll = .ok events)
    (hquit : events.quit = true) :
    let last := { k with machine := applyKeys k.machine events.changes }.halt s.beeper
    k.tick s.unattended = { loop := last.1, result := .ok .halted
                            happenings := .notice .quitRequested :: last.2 } := by
  have hpoll' : s.unattended.poll = .ok events := hpoll
  rw [tick, hpoll']
  exact if_pos hquit

/-- Without a debugger, a tick that goes on is the turn of the machine. -/
theorem tick_unattended (k : Loop) {events : Events} (hpoll : s.poll = .ok events)
    (hquit : events.quit = false) :
    ∃ told : List Happening, Silent Happening.switch? told ∧
      k.tick s.unattended = ((k.heard events false).proceed s).after told := by
  have hpoll' : s.unattended.poll = .ok events := hpoll
  rw [tick, hpoll']
  dsimp only
  rw [if_neg (ne_true_of_eq_false hquit)]
  exact ⟨_, silent_turnDebugger rfl _ events false, rfl⟩

/-- A look that changes nothing is no part of what matches. -/
theorem matches_obey (h : l.Matches k) (hdraw : s.draw = none) (hinvalidate : s.invalidate = none)
    {v : Visit δ} (hleaves : v.machine = l.machine) (hgoesOn : v.action ≠ .quit) :
    (l.obey s v).Matches (k.proceed s) := by
  have hvisited : (l.visited v).Matches k := by
    refine ⟨?_, h.beeping⟩
    rw [visited, hleaves]
    exact h.machine
  obtain ⟨hresult, hswitchings, hloop⟩ := hvisited.proceed hdraw
  have hnotices : Silent Happening.switch? (v.notices.map Happening.notice) :=
    silent_map (fun _ => rfl) v.notices
  have hlook : Silent Happening.switch? [.paused l.machine.pc v.action] := silent_singleton rfl
  have hforgets : Silent Happening.switch? [.invalidated] := silent_singleton rfl
  rw [l.obey_of_ne_quit hgoesOn hinvalidate]
  refine ⟨hresult, ?_, hloop⟩
  show switchings (_ ++ ([.invalidated] ++ ((l.visited v).proceed s).happenings)) = _
  rw [switchings_append, switchings_append, switchings_append, switchings_of_silent hnotices,
    switchings_of_silent hlook, switchings_of_silent hforgets, hswitchings]
  rfl

theorem Matches.tick (h : l.Matches k) (hs : s.Observed) :
    (l.tick s).Matches (k.tick s.unattended) := by
  cases l.stages s with
  | fails cause hpoll _ _ htick =>
    have htick' : k.tick s.unattended =
        { loop := k, result := .error (.io cause), happenings := [] } := by
      rw [Loop.tick, show s.unattended.poll = .error cause from hpoll]
    rw [htick, htick']
    exact ⟨rfl, rfl, h⟩
  | quits events hpoll hquit _ _ htick =>
    have hkeys : Loop.Matches { l with machine := applyKeys l.machine events.changes }
        { k with machine := applyKeys k.machine events.changes } :=
      ⟨h.machine.map (applyKeys · events.changes) (applyKeys_requestRedraw events.changes),
        h.beeping⟩
    obtain ⟨hloop, heq⟩ := hkeys.halt s.beeper
    rw [htick, k.tick_unattended_of_quit hpoll hquit]
    exact ⟨rfl, congrArg switchings (congrArg (List.cons _) heq), hloop⟩
  | proceeds events j told hpoll hquit hheard htold _ _ _ htick =>
    obtain ⟨told', hquiet, htick'⟩ := k.tick_unattended hpoll hquit
    rw [htick, htick', ← hheard]
    refine ((h.heard events _ _).proceed hs.draw).after ?_
    rw [switchings_of_silent (silent_of_forall_eq rfl htold), switchings_of_silent hquiet]
  | meets events j told visit hpoll hquit hheard htold _ hdebugger _ _ htick =>
    obtain ⟨told', hquiet, htick'⟩ := k.tick_unattended hpoll hquit
    have hj : j.Matches (k.heard events false) := hheard ▸ h.heard events _ _
    have hobey := matches_obey hj hs.draw hs.invalidate
      (hs.leaves visit hdebugger j.machine) (hs.goesOn visit hdebugger j.machine)
    rw [htick, htick']
    refine hobey.after ?_
    rw [switchings_of_silent (silent_of_forall_eq rfl htold), switchings_of_silent hquiet]

/-! ## Runs -/

/-- Runs of loops that match, one with an observing debugger and one without, match in every tick
and at the end. -/
theorem Matches.run (h : l.Matches k) {ss : List (Surroundings δ)} (hss : ∀ s ∈ ss, s.Observed) :
    (l.ticks ss).map (·.result) = (k.ticks (ss.map (·.unattended))).map (·.result) ∧
      switchings (l.history ss) = switchings (k.history (ss.map (·.unattended))) ∧
      (l.afterTicks ss).Matches (k.afterTicks (ss.map (·.unattended))) := by
  induction ss generalizing l k with
  | nil => exact ⟨rfl, rfl, h⟩
  | cons s rest ih =>
    obtain ⟨hresult, hswitchings, hloop⟩ := h.tick (hss s List.mem_cons_self)
    obtain ⟨hresults, hrest, hlast⟩ := ih hloop fun t ht => hss t (List.mem_cons_of_mem _ ht)
    refine ⟨congrArg₂ List.cons hresult hresults, ?_, hlast⟩
    show switchings ((l.tick s).happenings ++ (l.tick s).loop.history rest) =
      switchings ((k.tick s.unattended).happenings ++
        (k.tick s.unattended).loop.history (rest.map (·.unattended)))
    rw [switchings_append, switchings_append, hswitchings, hrest]

/-- An observing debugger is transparent. Take any loop, input and breakpoints, and a debugger that
leaves the machine alone and answers with a step or a resumption, in any order, on a display that
does not fail. After any number of ticks, the run has had the same results tick by tick and has
called the beeper in the same way as the run without a debugger, and the machines agree in every
field, except perhaps in whether the screen is to be drawn. -/
theorem run_unattended (l : Loop) (ss : List (Surroundings δ)) (hss : ∀ s ∈ ss, s.Observed) :
    (l.ticks ss).map (·.result) = (l.ticks (ss.map (·.unattended))).map (·.result) ∧
      switchings (l.history ss) = switchings (l.history (ss.map (·.unattended))) ∧
      SameButRedraw (l.afterTicks ss).machine (l.afterTicks (ss.map (·.unattended))).machine := by
  have hself : l.Matches l := ⟨rfl, rfl⟩
  obtain ⟨hresults, hswitchings, hlast⟩ := hself.run hss
  exact ⟨hresults, hswitchings, hlast.machine⟩

/-- A debugger that steps into a wait for a key, resumes, and is called again by a breakpoint, while
the beeper is switched on and off. -/
theorem run_unattended_stepped :
    let l : Loop := { machine := {
      ram := ({} : Ram).writeAll 0x200
        [0x60, 0x03, 0xF0, 0x18, 0xF1, 0x0A, 0x72, 0x01, 0x12, 0x06]
      breakpoints := AddressSet.empty.insert 0x206 } }
    let watched (tick : Events × Action) : Surroundings Unit :=
      { poll := .ok tick.1
        debugger := some fun m => { action := tick.2, machine := m, notices := [], kept := () }
        invalidate := none, draw := none, beeper := none }
    let script : List (Events × Action) :=
      [({ enterDebug := true }, .step), ({}, .step), ({}, .step), ({}, .step),
        (.press 7, .resume), ({}, .step), ({}, .resume)]
    let ss := script.map watched
    (l.ticks ss).map (·.kept.isSome) = [true, true, true, false, true, false, true] ∧
      switchings (l.history ss) = [true, false] ∧
      switchings (l.history (ss.map (·.unattended))) = [true, false] ∧
      SameButRedraw (l.afterTicks ss).machine (l.afterTicks (ss.map (·.unattended))).machine := by
  intro l watched script ss
  have hscript : ∀ tick ∈ script, tick.2 ≠ .quit := by decide
  have hss : ∀ s ∈ ss, s.Observed := by
    refine List.forall_mem_map.mpr fun tick htick => ⟨?_, ?_, rfl, rfl⟩
    · rintro visit ⟨⟩ m
      rfl
    · rintro visit ⟨⟩ m
      exact hscript tick htick
  have hlooks :
      (l.ticks ss).map (·.kept.isSome) = [true, true, true, false, true, false, true] := by
    decide +kernel
  have hbeeps : switchings (l.history ss) = [true, false] := by decide +kernel
  obtain ⟨-, hswitchings, hlast⟩ := run_unattended l ss hss
  exact ⟨hlooks, hbeeps, hswitchings.symm.trans hbeeps, hlast⟩

end Loop
end ChipEight
