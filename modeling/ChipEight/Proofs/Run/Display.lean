import ChipEight.Proofs.Machine.Picture
import ChipEight.Proofs.Run.Beeper

/-!
# The display over a run

The display shows what it drew last, or nothing after it forgot its picture. A machine that runs is
*fresh* before and after every tick: the display shows its screen in its colours, or the screen is
to be drawn. A step keeps this, since nothing changes the picture in silence; a debugger may do
what it wants with a machine, since after its look the screen is to be drawn in any case. At the
end of a tick nothing is left to be drawn, so the display is up to date.
-/

namespace ChipEight

variable {δ : Type}

/-! ## What is on display -/

/-- A screen in its colours. -/
abbrev Frame := Raster × Palette

/-- The frame of a machine. -/
def Machine.frame (m : Machine) : Frame := (m.screen, m.palette)

/-- What a happening puts on display, a frame or nothing, if it is a call of the display at all. -/
def Happening.display? : Happening → Option (Option Frame)
  | .drawn screen palette => some (some (screen, palette))
  | .invalidated => some none
  | .notice _ | .paused _ _ | .beep | .stop => none

/-- What the last call of the display put on it, if there was one. -/
def lastDisplay? (happenings : List Happening) : Option (Option Frame) :=
  lastOf Happening.display? happenings

/-- What is on display after happenings. -/
def displayAfter (was : Option Frame) (happenings : List Happening) : Option Frame :=
  heldAfter Happening.display? was happenings

/-- The frames that were drawn. -/
def frames (happenings : List Happening) : List Frame :=
  happenings.filterMap fun x => x.display?.join

theorem frames_append (xs ys : List Happening) : frames (xs ++ ys) = frames xs ++ frames ys :=
  List.filterMap_append

theorem frames_of_silent {happenings : List Happening} (h : Silent Happening.display? happenings) :
    frames happenings = [] := by
  refine List.filterMap_eq_nil_iff.mpr fun x hx => ?_
  rw [h x hx]
  rfl

/-- While a machine runs, its frame is on display unless it is still to be drawn. -/
def Fresh (shown : Option Frame) (m : Machine) : Prop :=
  m.running = true → m.redraw = false → shown = some m.frame

theorem fresh_of_halt (shown : Option Frame) (m : Machine) : Fresh shown m.halt := nofun

theorem fresh_of_requestRedraw (shown : Option Frame) (m : Machine) :
    Fresh shown m.requestRedraw := nofun

/-- An instruction draws on the screen only where it asks for the screen to be drawn. -/
theorem Fresh.step {shown : Option Frame} {m next : Machine} {advance : Advance}
    (h : Fresh shown m) (hrunning : m.running = true) (hstep : m.step = .ok (advance, next)) :
    Fresh shown next := by
  intro _ hclear
  obtain ⟨operation, -, hkeeps⟩ := Machine.keeps_of_step hstep
  obtain hdirty | ⟨hredraw, hscreen⟩ := hkeeps.screen
  · rw [hdirty] at hclear
    cases hclear
  · rw [Machine.frame, hscreen, hkeeps.palette]
    exact h hrunning (hredraw.symm.trans hclear)

namespace Loop

theorem fresh_applyKeys {shown : Option Frame} {m : Machine} (h : Fresh shown m)
    (changes : List KeyChange) : Fresh shown (applyKeys m changes) := by
  rw [applyKeys_eq]
  exact h

theorem fresh_deliver {shown : Option Frame} {m : Machine} (h : Fresh shown m) (events : Events) :
    Fresh shown (deliver m events) := by
  unfold deliver
  split
  · unfold Machine.deliverKey
    split <;> exact h
  · exact h

end Loop

/-! ## Ticks -/

/-- An outcome keeps the display up to date that showed something before. -/
structure Outcome.Follows (was : Option Frame) (o : Outcome δ) (state : RunState) : Prop where
  fresh : Fresh (displayAfter was o.happenings) o.loop.machine
  once : (frames o.happenings).length ≤ 1
  stands : o.loop.machine.runState = state
  clear : state ≠ .halted → o.loop.machine.redraw = false

theorem Outcome.Follows.after {was shown : Option Frame} {o : Outcome δ} {state : RunState}
    {earlier : List Happening} (h : o.Follows shown state)
    (hshown : displayAfter was earlier = shown) (hframes : frames earlier = []) :
    (o.after earlier).Follows was state where
  fresh := by
    show Fresh (displayAfter was (earlier ++ o.happenings)) o.loop.machine
    rw [displayAfter, heldAfter_append]
    rw [displayAfter] at hshown
    rw [hshown]
    exact h.fresh
  once := by
    show (frames (earlier ++ o.happenings)).length ≤ 1
    rw [frames_append, hframes]
    exact h.once
  stands := h.stands
  clear := h.clear

theorem Outcome.Follows.afterSilent {was : Option Frame} {o : Outcome δ} {state : RunState}
    {earlier : List Happening} (h : o.Follows was state)
    (hearlier : Silent Happening.display? earlier) : (o.after earlier).Follows was state :=
  h.after (hearlier.heldAfter_eq was) (frames_of_silent hearlier)

/-- What the debugger tells and its look itself put nothing on display. -/
theorem Outcome.Follows.afterLook {was : Option Frame} {o : Outcome δ} {state : RunState}
    (h : o.Follows was state) (pc : UInt16) (v : Visit δ) :
    Outcome.Follows was
      { o.after (v.notices.map Happening.notice ++ [.paused pc v.action]) with
        kept := some v.kept } state := by
  have hlooked : Silent Happening.display?
      (v.notices.map Happening.notice ++ [.paused pc v.action]) :=
    (silent_map (fun _ => rfl) v.notices).append (silent_singleton rfl)
  obtain ⟨hfresh, honce, hstate, hclear⟩ := h.afterSilent hlooked
  exact ⟨hfresh, honce, hstate, hclear⟩

namespace Loop

variable {l : Loop} {s : Surroundings δ} {was : Option Frame} {state : RunState}

/-- Drawing is what brings the display up to date. -/
theorem follows_paint (h : Fresh was l.machine) (hok : (l.paint s).result = .ok state) :
    (l.paint s).Follows was state := by
  unfold paint at hok ⊢
  dsimp only [Machine.takeRedraw] at hok ⊢
  cases hredraw : l.machine.redraw with
  | false =>
    rw [hredraw] at hok
    exact ⟨fun hon _ => h hon hredraw, Nat.zero_le 1, Except.ok.inj hok, fun _ => rfl⟩
  | true =>
    rw [hredraw] at hok
    cases hdraw : s.draw with
    | some cause =>
      rw [hdraw] at hok
      cases hok
    | none =>
      rw [hdraw] at hok
      exact ⟨fun _ _ => rfl, Nat.le_refl 1, Except.ok.inj hok, fun _ => rfl⟩

theorem follows_advance (h : Fresh was l.machine) (hrunning : l.machine.running = true)
    (hok : (l.advance s).result = .ok state) : (l.advance s).Follows was state := by
  cases hstep : l.machine.step with
  | error fault =>
    rw [advance_of_error s hstep] at hok
    cases hok
  | ok result =>
    obtain ⟨advance, next⟩ := result
    rw [advance_of_ok s hstep] at hok ⊢
    have hnext : Fresh was next := h.step hrunning hstep
    have htrace : Silent Happening.display? l.trace := silent_trace (fun _ => rfl) l
    refine (follows_paint ?_ hok).afterSilent
      (htrace.append (silent_setBeeper rfl rfl (fun _ => rfl) _ _ _))
    rw [follow, machine_setBeeper]
    exact hnext

theorem follows_proceed (h : Fresh was l.machine) (hok : (l.proceed s).result = .ok state) :
    (l.proceed s).Follows was state := by
  unfold proceed at hok ⊢
  cases hstate : l.machine.runState with
  | halted =>
    rw [hstate] at hok
    cases hok
    exact ⟨h, Nat.zero_le 1, hstate, fun hnot => absurd rfl hnot⟩
  | waiting =>
    rw [hstate] at hok
    exact follows_paint h hok
  | running =>
    rw [hstate] at hok
    refine follows_advance h ?_ hok
    rw [← Bool.not_eq_false, ← runState_eq_halted_iff, hstate]
    exact nofun

/-- A loop that is halted has nothing more to show. -/
theorem follows_halt (l : Loop) (s : Surroundings δ) (was : Option Frame) (n : Notice) :
    Outcome.Follows was
      ({ loop := (l.halt s.beeper).1, result := .ok .halted,
         happenings := .notice n :: (l.halt s.beeper).2 } : Outcome δ) .halted := by
  have hnotice : Silent Happening.display? [.notice n] := silent_singleton rfl
  have hsilent : Silent Happening.display? (.notice n :: (l.halt s.beeper).2) :=
    hnotice.append (silent_setBeeper rfl rfl (fun _ => rfl) _ _ _)
  have hmachine : (l.halt s.beeper).1.machine = l.machine.halt := machine_setBeeper _ _ _
  refine ⟨?_, ?_, ?_, fun hnot => absurd rfl hnot⟩
  · rw [hmachine]
    exact fresh_of_halt _ _
  · rw [frames_of_silent hsilent]
    exact Nat.zero_le 1
  · rw [hmachine]
    rfl

/-- A look of the debugger, whatever it does to the machine. -/
theorem follows_obey {v : Visit δ} (hok : (l.obey s v).result = .ok state) :
    (l.obey s v).Follows was state := by
  obtain ⟨action, machine, notices, kept⟩ := v
  cases action
  case quit =>
    cases hok
    exact (follows_halt { l with machine } s was .quitFromDebugger).afterLook _ ⟨_, machine, _, _⟩
  case resume | step =>
    refine Outcome.Follows.afterLook ?_ _ ⟨_, machine, _, _⟩
    unfold obey at hok
    dsimp only at hok ⊢
    cases hinvalidate : s.invalidate with
    | some cause =>
      rw [hinvalidate] at hok
      cases hok
    | none =>
      rw [hinvalidate] at hok
      -- Nothing is on display now, and the screen is to be drawn.
      exact (follows_proceed (fresh_of_requestRedraw none machine) hok).after rfl rfl

theorem follows_consult (h : Fresh was l.machine) (hok : (l.consult s).result = .ok state) :
    (l.consult s).Follows was state := by
  unfold consult at hok ⊢
  cases hdebugger : s.debugger with
  | none =>
    rw [hdebugger] at hok
    exact follows_proceed h hok
  | some visit =>
    rw [hdebugger] at hok
    dsimp only at hok ⊢
    by_cases hpause : l.shouldPause
    · rw [if_pos hpause] at hok ⊢
      exact follows_obey hok
    · rw [if_neg hpause] at hok ⊢
      exact follows_proceed h hok

theorem follows_tick (h : Fresh was l.machine) (hok : (l.tick s).result = .ok state) :
    (l.tick s).Follows was state := by
  unfold tick at hok ⊢
  cases hpoll : s.poll with
  | error cause =>
    rw [hpoll] at hok
    cases hok
  | ok events =>
    rw [hpoll] at hok
    dsimp only at hok ⊢
    by_cases hquit : events.quit
    · rw [if_pos hquit] at hok ⊢
      cases hok
      exact follows_halt _ s was .quitRequested
    · rw [if_neg hquit] at hok ⊢
      refine (follows_consult ?_ hok).afterSilent (silent_turnDebugger rfl _ _ _)
      refine fresh_deliver ?_ events
      rw [machine_turnDebugger]
      exact fresh_applyKeys h events.changes

/-! ## Runs -/

/-- As long as no tick fails, the machine stays fresh. -/
theorem fresh_afterTicks {was : Option Frame} {l : Loop} (h : Fresh was l.machine)
    (ss : List (Surroundings δ)) (hok : ∀ o ∈ l.ticks ss, ∃ state, o.result = .ok state) :
    Fresh (displayAfter was (l.history ss)) (l.afterTicks ss).machine := by
  -- Each tick changes the display and the machine, and the rest of the run starts from both.
  induction ss generalizing l was with
  | nil => exact h
  | cons s rest ih =>
    obtain ⟨state, hstate⟩ := hok (l.tick s) List.mem_cons_self
    have htick := (follows_tick h hstate).fresh
    have hrest := ih htick fun o ho => hok o (List.mem_cons_of_mem _ ho)
    show Fresh (displayAfter was ((l.tick s).happenings ++ (l.tick s).loop.history rest)) _
    rw [displayAfter, heldAfter_append]
    exact hrest

/-- The display is never stale. After ticks of which none fails, if the machine still runs or waits
for a key, nothing is left to be drawn, the last tick drew one frame at most, and the last call of
the display left it with the frame of the machine. If there was no such call, the frame of the
machine is still the one from the start. -/
theorem display_is_current (l : Loop) (ss : List (Surroundings δ)) (s : Surroundings δ)
    (hok : ∀ o ∈ l.ticks ss, ∃ state, o.result = .ok state) {state : RunState}
    (hlast : ((l.afterTicks ss).tick s).result = .ok state) (hstate : state ≠ .halted) :
    (l.afterTicks (ss ++ [s])).machine.redraw = false ∧
      (frames ((l.afterTicks ss).tick s).happenings).length ≤ 1 ∧
      (lastDisplay? (l.history (ss ++ [s])) = some (some (l.afterTicks (ss ++ [s])).machine.frame) ∨
        lastDisplay? (l.history (ss ++ [s])) = none ∧
          (l.afterTicks (ss ++ [s])).machine.frame = l.machine.frame) := by
  -- The frame from the start counts as shown until the display is called.
  have hstart : Fresh (some l.machine.frame) l.machine := fun _ _ => rfl
  have hfollows := follows_tick (fresh_afterTicks hstart ss hok) hlast
  have hshown : Fresh (displayAfter (some l.machine.frame) (l.history (ss ++ [s])))
      (l.afterTicks (ss ++ [s])).machine := by
    rw [history_concat, displayAfter, heldAfter_append, afterTicks_concat]
    exact hfollows.fresh
  have hclear : (l.afterTicks (ss ++ [s])).machine.redraw = false := by
    rw [afterTicks_concat]
    exact hfollows.clear hstate
  have hrunning : (l.afterTicks (ss ++ [s])).machine.running = true := by
    rw [← Bool.not_eq_false, ← runState_eq_halted_iff, afterTicks_concat, hfollows.stands]
    exact hstate
  have hdisplay := hshown hrunning hclear
  refine ⟨hclear, hfollows.once, ?_⟩
  unfold displayAfter heldAfter at hdisplay
  unfold lastDisplay?
  cases hcall : lastOf Happening.display? (l.history (ss ++ [s])) with
  | none =>
    rw [hcall] at hdisplay
    exact .inr ⟨rfl, (Option.some.inj hdisplay).symm⟩
  | some display =>
    rw [hcall] at hdisplay
    exact .inl (congrArg some hdisplay)

/-- A debugger that changes the colours in silence. -/
theorem display_is_current_visited :
    let l : Loop := { machine := { ram := ({} : Ram).writeAll 0x200 [0x00, 0xE0, 0x12, 0x02] } }
    let idle : Surroundings Unit :=
      { poll := .ok {}, debugger := none, invalidate := none, draw := none, beeper := none }
    let visited : Surroundings Unit := { idle with
      poll := .ok { enterDebug := true }
      debugger := some fun m =>
        { action := .resume, machine := { m with palette := { background := 1, foreground := 2 } },
          notices := [], kept := () } }
    (∀ o ∈ l.ticks [idle], ∃ state, o.result = .ok state) ∧
      ((l.afterTicks [idle]).tick visited).result = .ok .running ∧
      lastDisplay? (l.history [idle, visited]) =
        some (some (l.afterTicks [idle, visited]).machine.frame) := by
  intro l idle visited
  have hok : ∀ o ∈ l.ticks [idle], ∃ state, o.result = .ok state := by
    intro o ho
    rw [List.mem_singleton.mp ho]
    exact ⟨.running, by decide +kernel⟩
  have hlast : ((l.afterTicks [idle]).tick visited).result = .ok .running := by decide +kernel
  have hcalled : lastDisplay? (l.history [idle, visited]) ≠ none := by decide +kernel
  obtain ⟨-, -, hshown | ⟨hnone, -⟩⟩ := display_is_current l [idle] visited hok hlast nofun
  · exact ⟨hok, hlast, hshown⟩
  · exact absurd hnone hcalled

end Loop
end ChipEight
