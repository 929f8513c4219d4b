import ChipEight.Proofs.Run.Stages

/-!
# Stepping discipline

When the debugger looks is a matter of two flags of the loop. Debug mode says whether it may look at
all, and stepping whether it looks before every instruction or at breakpoints only. The user sets
and clears both flags together, and every answer of the debugger sets or clears the latter.

So a step is followed by one instruction and then by a look, and a resumption by no look until
a breakpoint is reached or the user calls for one.
-/

namespace ChipEight

open Debugger (Action)

variable {δ : Type}

/-- The input tells that the user turns the debugger on. -/
def Surroundings.Enters (s : Surroundings δ) : Prop :=
  ∃ events, s.poll = .ok events ∧ events.enterDebug = true

/-- The input tells that the user turns the debugger off. -/
def Surroundings.Exits (s : Surroundings δ) : Prop :=
  ∃ events, s.poll = .ok events ∧ events.exitDebug = true

/-- There is a debugger, and the user does not turn it off. -/
structure Surroundings.Attended (s : Surroundings δ) : Prop where
  attached : s.debugger.isSome
  stays : ¬s.Exits

/-- A moment is a look of the debugger. -/
def Moment.isLook : Moment → Bool
  | .look _ _ => true
  | .instruction _ => false

/-- The debugger itself has no looks to tell of. -/
theorem Visit.countP_claims (v : Visit δ) : v.claims.countP Moment.isLook = 0 := by
  rw [List.countP_eq_zero, claims, List.filterMap_map]
  intro moment hmoment
  obtain ⟨n, -, hn⟩ := List.mem_filterMap.mp hmoment
  cases n <;> cases hn
  exact nofun

namespace Loop

variable {l k : Loop} {s : Surroundings δ} {x : Meeting δ}

/-! ## The two flags over a tick -/

/-- Two loops have the debugger turned on alike. -/
structure SameFlags (l k : Loop) : Prop where
  debugging : l.debugging = k.debugging
  stepping : l.stepping = k.stepping

theorem sameFlags_proceed (l : Loop) (s : Surroundings δ) : (l.proceed s).loop.SameFlags l := by
  obtain ⟨machine, beeping, hloop⟩ := l.loop_proceed s
  rw [hloop]
  exact ⟨rfl, rfl⟩

/-- Without a look, a tick that gets as far as hearing the user leaves the flags as the user wants
them. -/
theorem flags_tick_of_unmet (hmeeting : l.meeting? s = none) :
    (l.tick s).loop.SameFlags l ∨
      ∃ events, s.poll = .ok events ∧
        (l.tick s).loop.SameFlags (l.heard events s.debugger.isSome) := by
  cases l.stages s with
  | fails cause hpoll hnone hturn htick =>
    rw [htick]
    exact .inl ⟨rfl, rfl⟩
  | quits events hpoll hquit hnone hturn htick =>
    rw [htick, loop_halt]
    exact .inl ⟨rfl, rfl⟩
  | proceeds events k told hpoll hquit hheard htold hpause hnone hturn htick =>
    refine .inr ⟨events, hpoll, ?_⟩
    rw [htick, hheard]
    exact k.sameFlags_proceed s
  | meets events k told visit hpoll hquit hheard htold hpause hdebugger hmeets hturn htick =>
    rw [hmeeting] at hmeets
    cases hmeets

/-- A flag that is on after the user was heard was on before, or the user wants it on. -/
theorem enters_of_heard {events : Events} (hpoll : s.poll = .ok events) (attached : Bool) :
    ((l.heard events attached).debugging = true → l.debugging = true ∨ s.Enters) ∧
      ((l.heard events attached).stepping = true → l.stepping = true ∨ s.Enters) := by
  have henters : ∀ flag : Bool,
      (!events.exitDebug && (flag || events.enterDebug && attached)) = true →
        flag = true ∨ s.Enters := by
    intro flag h
    simp only [Bool.and_eq_true, Bool.or_eq_true] at h
    exact h.2.imp_right fun h => ⟨events, hpoll, h.1⟩
  rw [heard_eq]
  exact ⟨henters l.debugging, henters l.stepping⟩

/-- Without a look, only the user turns flags on. -/
theorem enters_of_unmet (hmeeting : l.meeting? s = none) :
    ((l.tick s).loop.debugging = true → l.debugging = true ∨ s.Enters) ∧
      ((l.tick s).loop.stepping = true → l.stepping = true ∨ s.Enters) := by
  obtain hflags | ⟨events, hpoll, hflags⟩ := flags_tick_of_unmet hmeeting
  · rw [hflags.debugging, hflags.stepping]
    exact ⟨.inl, .inl⟩
  · rw [hflags.debugging, hflags.stepping]
    exact enters_of_heard hpoll _

/-! ## Ticks with a look -/

/-- A look at a machine that runs, in debug mode, which the machine's turn follows if there is to be
one. -/
theorem meets_of_meeting? (h : l.meeting? s = some x) :
    ∃ events k told, s.poll = .ok events ∧ l.heard events s.debugger.isSome = k ∧
      k.shouldPause = true ∧ x.seen = k.machine ∧ l.turn? s = k.afterVisit? s x.visit ∧
      l.tick s = (k.obey s x.visit).after told := by
  cases l.stages s with
  | fails cause hpoll hmeeting =>
    rw [h] at hmeeting
    cases hmeeting
  | quits events hpoll hquit hmeeting =>
    rw [h] at hmeeting
    cases hmeeting
  | proceeds events k told hpoll hquit hheard htold hpause hmeeting =>
    rw [h] at hmeeting
    cases hmeeting
  | meets events k told visit hpoll hquit hheard htold hpause hdebugger hmeeting hturn htick =>
    obtain rfl := Option.some.inj (h.symm.trans hmeeting)
    exact ⟨events, k, told, hpoll, hheard, hpause, rfl, hturn, htick⟩

theorem seen_of_meeting? (h : l.meeting? s = some x) :
    ∃ events, s.poll = .ok events ∧ (l.heard events s.debugger.isSome).debugging = true ∧
      (l.heard events s.debugger.isSome).machine = x.seen ∧ x.seen.runState = .running := by
  obtain ⟨events, k, told, hpoll, rfl, hpause, hseen, -, -⟩ := meets_of_meeting? h
  obtain ⟨hdebugging, hrunning, -⟩ := shouldPause_iff.mp hpause
  rw [hseen]
  exact ⟨events, hpoll, hdebugging, rfl, hrunning⟩

/-- After a look that lets the machine go on, the debugger is to step if this was its answer. -/
theorem stepping_of_meeting? (h : l.meeting? s = some x) (hquit : x.visit.action ≠ .quit) :
    (l.tick s).loop.debugging = true ∧
      (l.tick s).loop.stepping = (x.visit.action == .step) := by
  obtain ⟨events, k, told, -, -, hpause, -, -, htick⟩ := meets_of_meeting? h
  have hdebugging : k.debugging = true := (shouldPause_iff.mp hpause).1
  rw [htick]
  cases hinvalidate : s.invalidate with
  | some cause =>
    rw [k.obey_of_failure hquit hinvalidate]
    exact ⟨hdebugging, rfl⟩
  | none =>
    rw [k.obey_of_ne_quit hquit hinvalidate]
    have hflags := (k.visited x.visit).sameFlags_proceed s
    exact ⟨hflags.debugging.trans hdebugging, hflags.stepping⟩

/-- The instruction of a tick with a look is executed by the machine that the debugger hands
back. -/
theorem executes?_of_meeting? (h : l.meeting? s = some x) {m : Machine}
    (hm : l.executes? s = some m) : m = x.visit.machine.requestRedraw := by
  obtain ⟨events, k, told, -, -, -, -, hturn, -⟩ := meets_of_meeting? h
  obtain ⟨turn, hafter, hacts⟩ := Option.bind_eq_some_iff.mp hm
  rw [hturn] at hafter
  obtain rfl := visited_of_afterVisit? hafter
  exact (Option.some.inj (Option.ite_none_right_eq_some.mp hacts).2).symm

/-- A machine that the debugger lets go on executes an instruction if it runs. -/
theorem executes?_of_ne_quit (h : l.meeting? s = some x) (hquit : x.visit.action ≠ .quit)
    (hrunning : x.visit.machine.runState = .running) (hinvalidate : s.invalidate = none) :
    l.executes? s = some x.visit.machine.requestRedraw := by
  obtain ⟨events, k, told, -, -, -, -, hturn, -⟩ := meets_of_meeting? h
  rw [executes?, hturn, k.afterVisit?_eq hquit hinvalidate]
  exact if_pos hrunning

/-! ## Between a step and the next look -/

/-- The debugger is to look before the next instruction. -/
structure Armed (l : Loop) : Prop where
  debugging : l.debugging = true
  stepping : l.stepping = true

theorem SameFlags.armed (h : l.SameFlags k) (hk : k.Armed) : l.Armed :=
  ⟨h.debugging.trans hk.debugging, h.stepping.trans hk.stepping⟩

theorem Armed.heard (h : l.Armed) {events : Events} (hpoll : s.poll = .ok events)
    (hstays : ¬s.Exits) (attached : Bool) : (l.heard events attached).Armed := by
  have hexit : events.exitDebug = false :=
    eq_false_of_ne_true fun hexit => hstays ⟨events, hpoll, hexit⟩
  rw [heard_eq]
  constructor
  · simp only [hexit, h.debugging, Bool.not_false, Bool.true_or, Bool.and_self]
  · simp only [hexit, h.stepping, Bool.not_false, Bool.true_or, Bool.and_self]

/-- Where the debugger is to look before the next instruction, no instruction comes before its
look. -/
theorem Armed.executes? (h : l.Armed) (hs : s.Attended) (hmeeting : l.meeting? s = none) :
    l.executes? s = none := by
  rw [Loop.executes?]
  cases l.stages s with
  | fails cause hpoll hnone hturn =>
    rw [hturn]
    rfl
  | quits events hpoll hquit hnone hturn =>
    rw [hturn]
    rfl
  | proceeds events k told hpoll hquit hheard htold hpause hnone hturn =>
    have hk : k.Armed := hheard ▸ h.heard hpoll hs.stays _
    -- A debugger that does not look though it is to step has no running machine before it.
    rw [hturn]
    refine if_neg fun hrunning => ?_
    have hlooks := shouldPause_iff.mpr ⟨hk.debugging, hrunning, .inl hk.stepping⟩
    cases (hpause hs.attached).symm.trans hlooks
  | meets events k told visit hpoll hquit hheard htold hpause hdebugger hmeets =>
    rw [hmeeting] at hmeets
    cases hmeets

theorem Armed.tick (h : l.Armed) (hs : s.Attended) (hmeeting : l.meeting? s = none) :
    (l.tick s).loop.Armed := by
  obtain hflags | ⟨events, hpoll, hflags⟩ := flags_tick_of_unmet hmeeting
  · exact hflags.armed h
  · exact hflags.armed (h.heard hpoll hs.stays _)

theorem meeting?_eq_none_of_kept (h : (l.tick s).kept = none) : l.meeting? s = none := by
  rw [kept_tick, Option.map_eq_none_iff] at h
  exact h

/-- As long as the debugger, which is to look before the next instruction, does not, no instruction
is executed. -/
theorem Armed.ticks (h : l.Armed) {ss : List (Surroundings δ)} (hss : ∀ s ∈ ss, s.Attended)
    (hkept : ∀ o ∈ l.ticks ss, o.kept = none) :
    l.executions ss = [] ∧ (l.afterTicks ss).Armed := by
  -- The loop changes from tick to tick, and being armed is what every tick hands on.
  induction ss generalizing l with
  | nil => exact ⟨rfl, h⟩
  | cons s rest ih =>
    obtain ⟨hfirst, hrest⟩ := List.forall_mem_cons.mp hkept
    obtain ⟨hs, hss⟩ := List.forall_mem_cons.mp hss
    have hmeeting := meeting?_eq_none_of_kept hfirst
    obtain ⟨hexecutions, hlast⟩ := ih (h.tick hs hmeeting) hss hrest
    refine ⟨?_, hlast⟩
    rw [executions, h.executes? hs hmeeting, hexecutions]
    rfl

/-! ## After a resumption -/

/-- Without a look, the loop is not made to step but by the user. -/
theorem enters_of_stepping_afterTicks {ss : List (Surroundings δ)}
    (hkept : ∀ o ∈ l.ticks ss, o.kept = none) (h : (l.afterTicks ss).stepping = true) :
    l.stepping = true ∨ ∃ s ∈ ss, s.Enters := by
  induction ss generalizing l with
  | nil => exact .inl h
  | cons s rest ih =>
    obtain ⟨hfirst, hrest⟩ := List.forall_mem_cons.mp hkept
    obtain hstepping | ⟨t, ht, henters⟩ := ih hrest h
    · have hmeeting := meeting?_eq_none_of_kept hfirst
      refine ((enters_of_unmet hmeeting).2 hstepping).imp_right fun henters => ?_
      exact ⟨s, List.mem_cons_self, henters⟩
    · exact .inr ⟨t, List.mem_cons_of_mem s ht, henters⟩

/-- What calls for a look: a step, the user, or a breakpoint. -/
theorem calls_of_meeting? (h : l.meeting? s = some x) :
    (l.stepping = true ∨ s.Enters) ∨ x.seen.breakpoints.contains x.seen.pc = true := by
  obtain ⟨events, k, told, hpoll, rfl, hpause, hseen, -, -⟩ := meets_of_meeting? h
  rw [hseen]
  exact (shouldPause_iff.mp hpause).2.2.imp_left (enters_of_heard hpoll _).2

/-! ## Debug mode off -/

theorem debugging_of_meeting? (h : l.meeting? s = some x) : l.debugging = true ∨ s.Enters := by
  obtain ⟨events, k, told, hpoll, rfl, hpause, -, -, -⟩ := meets_of_meeting? h
  exact (enters_of_heard hpoll _).1 (shouldPause_iff.mp hpause).1

/-- Debug mode stays off until the user turns it on, and the debugger does not look as long as it
is. -/
theorem ticks_of_not_debugging (h : l.debugging = false) {ss : List (Surroundings δ)}
    (hss : ∀ s ∈ ss, ¬s.Enters) :
    (∀ o ∈ l.ticks ss, o.kept = none) ∧ (l.afterTicks ss).debugging = false := by
  induction ss generalizing l with
  | nil =>
    refine ⟨?_, h⟩
    intro o ho
    exact absurd ho List.not_mem_nil
  | cons s rest ih =>
    obtain ⟨hs, hss⟩ := List.forall_mem_cons.mp hss
    have hcalls : ¬(l.debugging = true ∨ s.Enters) := by
      rw [h]
      exact not_or_intro nofun hs
    have hmeeting : l.meeting? s = none :=
      Option.eq_none_iff_forall_ne_some.mpr fun x hx => hcalls (debugging_of_meeting? hx)
    have hoff : (l.tick s).loop.debugging = false :=
      eq_false_of_ne_true fun hon => hcalls ((enters_of_unmet hmeeting).1 hon)
    obtain ⟨hrest, hlast⟩ := ih hoff hss
    refine ⟨List.forall_mem_cons.mpr ⟨?_, hrest⟩, hlast⟩
    rw [kept_tick, hmeeting]
    rfl

/-! ## The discipline -/

/-- At most one look in a tick. -/
theorem countP_isLook_tick (l : Loop) (s : Surroundings δ) :
    (l.tick s).moments.countP Moment.isLook ≤ 1 := by
  have hinstructions : ∀ ms : List Machine,
      (ms.map fun m => Moment.instruction m.pc).countP Moment.isLook = 0 := by
    intro ms
    rw [List.countP_map, List.countP_eq_zero]
    exact fun _ _ => Bool.false_ne_true
  have hrest : (if l.verbose then (l.executes? s).toList.map fun m => .instruction m.pc
      else []).countP Moment.isLook = 0 := by
    split
    · exact hinstructions _
    · rfl
  rw [moments_tick, List.countP_append, hrest, Nat.add_zero]
  cases l.meeting? s with
  | none => exact Nat.zero_le 1
  | some x =>
    rw [Option.toList_some, List.flatMap_singleton, List.countP_append, x.visit.countP_claims]
    exact Nat.le_refl 1

/-- The discipline of a debugger in a tick, and in the ticks that follow it. -/
structure Disciplined (l : Loop) (s : Surroundings δ) : Prop where
  /-- The debugger looks at most once. -/
  once : (l.tick s).moments.countP Moment.isLook ≤ 1
  /-- It looks before the instruction of the tick. -/
  order : (l.tick s).moments =
    ((l.meeting? s).toList.flatMap fun x => x.visit.claims ++ [.look x.seen.pc x.visit.action]) ++
      if l.verbose then (l.executes? s).toList.map fun m => .instruction m.pc else []
  /-- It keeps something from the ticks in which it looks. -/
  keeps : (l.tick s).kept = (l.meeting? s).map (·.visit.kept)
  /-- It looks in debug mode only, and at a running machine as the events of the tick left it. -/
  looks : ∀ x, l.meeting? s = some x → ∃ events, s.poll = .ok events ∧
    (l.heard events s.debugger.isSome).debugging = true ∧
    (l.heard events s.debugger.isSome).machine = x.seen ∧ x.seen.runState = .running
  /-- The instruction is executed by the machine that it hands back. -/
  handsBack : ∀ x m, l.meeting? s = some x → l.executes? s = some m →
    m = x.visit.machine.requestRedraw
  /-- A machine that executes an instruction runs, and the tick ends with what becomes of it. -/
  executes : ∀ m, l.executes? s = some m →
    m.runState = .running ∧ (l.tick s).loop.machine = m.executed
  /-- Where no instruction is executed, the machine is halted or drawn at most. -/
  rests : l.executes? s = none →
    ∃ running redraw, (l.tick s).loop.machine = { l.prepared s with running, redraw }
  /-- A machine that waits for a key is not looked at and executes nothing. -/
  waits : ∀ events, s.poll = .ok events →
    (l.heard events s.debugger.isSome).machine.runState = .waiting →
    l.meeting? s = none ∧ l.executes? s = none
  /-- A step that leaves the machine running is followed by one instruction before the next look,
  and there is a look before a second one unless the user turns the debugger off. -/
  steps : ∀ x, l.meeting? s = some x → x.visit.action = .step →
    x.visit.machine.runState = .running → s.invalidate = none →
    l.executes? s = some x.visit.machine.requestRedraw ∧
    ∀ later : List (Surroundings δ), (∀ t ∈ later, t.Attended) →
      (∀ o ∈ (l.tick s).loop.ticks later, o.kept = none) →
      l.executions (s :: later) = [x.visit.machine.requestRedraw] ∧
      ∀ t : Surroundings δ, t.Attended →
        (((l.tick s).loop.afterTicks later).executes? t).isSome →
        (((l.tick s).loop.afterTicks later).meeting? t).isSome
  /-- After a resumption, the next look comes in debug mode, and where there is a breakpoint or
  after the user has called for it. -/
  resumes : ∀ x, l.meeting? s = some x → x.visit.action = .resume →
    ∀ later : List (Surroundings δ), (∀ o ∈ (l.tick s).loop.ticks later, o.kept = none) →
    ∀ t y, ((l.tick s).loop.afterTicks later).meeting? t = some y →
      (∃ events, t.poll = .ok events ∧
        (((l.tick s).loop.afterTicks later).heard events t.debugger.isSome).debugging = true) ∧
      (y.seen.breakpoints.contains y.seen.pc = true ∨ ∃ u ∈ later ++ [t], u.Enters)
  /-- With debug mode off it does not look, until the user turns debug mode on. -/
  off : l.debugging = false → ∀ ss : List (Surroundings δ), (∀ t ∈ ss, ¬t.Enters) →
    (∀ o ∈ l.ticks ss, o.kept = none) ∧ (l.afterTicks ss).debugging = false

/-- Stepping discipline. Whatever a run has come to, the debugger looks at most once in a tick, and
before the instruction. A step is followed by exactly one instruction before the next look, which
comes before any second one unless the user turns the debugger off. A resumption is followed by
no look until there is a breakpoint, in debug mode, or the user calls for one. And with debug mode
off there is no look. -/
theorem stepping_discipline (l : Loop) (s : Surroundings δ) : l.Disciplined s where
  once := countP_isLook_tick l s
  order := moments_tick l s
  keeps := kept_tick l s
  looks _ hx := seen_of_meeting? hx
  handsBack _ _ hx hm := executes?_of_meeting? hx hm
  executes _ hm := machine_tick_of_executes? hm
  rests hnone := machine_tick_of_rests hnone
  waits := by
    intro events hpoll hwaiting
    refine unmet_of_resting hpoll ?_
    rw [hwaiting]
    exact nofun
  steps := by
    intro x hx hstep hrunning hinvalidate
    have hquit : x.visit.action ≠ .quit := by
      rw [hstep]
      exact nofun
    have hexecutes := executes?_of_ne_quit hx hquit hrunning hinvalidate
    have harmed : (l.tick s).loop.Armed := by
      obtain ⟨hdebugging, hstepping⟩ := stepping_of_meeting? hx hquit
      rw [hstep] at hstepping
      exact ⟨hdebugging, hstepping⟩
    refine ⟨hexecutes, ?_⟩
    intro later hlater hkept
    obtain ⟨hexecutions, hlast⟩ := harmed.ticks hlater hkept
    constructor
    · rw [executions, hexecutes, hexecutions]
      rfl
    · intro t ht hsecond
      rw [Option.isSome_iff_ne_none] at hsecond ⊢
      exact fun hunmet => hsecond (hlast.executes? ht hunmet)
  resumes := by
    intro x hx hresume later hkept t y hy
    have hquit : x.visit.action ≠ .quit := by
      rw [hresume]
      exact nofun
    have hresumed : (l.tick s).loop.stepping = false := by
      rw [(stepping_of_meeting? hx hquit).2, hresume]
      rfl
    obtain ⟨events, hpoll, hdebugging, -, -⟩ := seen_of_meeting? hy
    refine ⟨⟨events, hpoll, hdebugging⟩, ?_⟩
    obtain (hstepping | henters) | hbreakpoint := calls_of_meeting? hy
    · obtain hstepping | ⟨u, hu, henters⟩ := enters_of_stepping_afterTicks hkept hstepping
      · rw [hresumed] at hstepping
        cases hstepping
      · exact .inr ⟨u, List.mem_append_left _ hu, henters⟩
    · exact .inr ⟨t, List.mem_append_right _ List.mem_cons_self, henters⟩
    · exact .inl hbreakpoint
  off hoff _ hss := ticks_of_not_debugging hoff hss

/-- A debugger that steps into a wait for a key. The tick of the wait executes nothing, the key calls
the debugger again, which resumes, and then a breakpoint calls it. -/
theorem stepping_discipline_parked :
    let l : Loop := { machine := {
      ram := ({} : Ram).writeAll 0x200 [0xF1, 0x0A, 0x72, 0x01, 0x12, 0x02]
      breakpoints := AddressSet.empty.insert 0x202 } }
    let watched (tick : Events × Action) : Surroundings Unit :=
      { poll := .ok tick.1
        debugger := some fun m => { action := tick.2, machine := m, notices := [], kept := () }
        invalidate := none, draw := none, beeper := none }
    let start := watched ({ enterDebug := true }, .step)
    let wait := watched ({}, .quit)
    let key := watched (.press 7, .resume)
    let parked := (l.tick start).loop.afterTicks [wait]
    let resumed := (parked.tick key).loop.afterTicks [wait]
    (∃ x, l.meeting? start = some x ∧ x.visit.action = .step ∧
      l.executions [start, wait] = [x.visit.machine.requestRedraw]) ∧
    (parked.executes? key).isSome ∧ (parked.meeting? key).isSome ∧
    ∃ y, resumed.meeting? wait = some y ∧ y.seen.breakpoints.contains y.seen.pc = true := by
  intro l watched start wait key parked resumed
  have hsteps : (l.meeting? start).any fun x =>
      x.visit.action == .step && x.visit.machine.runState == .running := by decide +kernel
  have hkept : ((l.tick start).loop.tick wait).kept = none := by decide +kernel
  have hsecond : (parked.executes? key).isSome := by decide +kernel
  have hresumes : (parked.meeting? key).any fun x => x.visit.action == .resume := by
    decide +kernel
  have hkept' : ((parked.tick key).loop.tick wait).kept = none := by decide +kernel
  have hlooks : (resumed.meeting? wait).isSome := by decide +kernel
  have hattended : ∀ tick : Events × Action,
      tick.1.exitDebug = false → (watched tick).Attended := by
    intro tick hexit
    refine ⟨rfl, ?_⟩
    rintro ⟨events, hpoll, hexits⟩
    obtain rfl := Except.ok.inj hpoll
    cases hexit.symm.trans hexits
  have hwait : wait.Attended := hattended ({}, .quit) rfl
  have hcalm : ¬wait.Enters := by
    rintro ⟨events, hpoll, henters⟩
    obtain rfl := Except.ok.inj hpoll
    cases henters
  obtain ⟨x, hx, hanswer⟩ := (Option.any_eq_true _ _).mp hsteps
  obtain ⟨hstep, hrunning⟩ := Bool.and_eq_true_iff.mp hanswer
  have hstep : x.visit.action = .step := beq_iff_eq.mp hstep
  have hunmet : ∀ o ∈ (l.tick start).loop.ticks [wait], o.kept = none :=
    List.forall_mem_singleton.mpr hkept
  obtain ⟨-, hlater⟩ :=
    (stepping_discipline l start).steps x hx hstep (beq_iff_eq.mp hrunning) rfl
  obtain ⟨hexecutions, hnext⟩ := hlater [wait] (List.forall_mem_singleton.mpr hwait) hunmet
  have hlook := hnext key (hattended (.press 7, .resume) rfl) hsecond
  obtain ⟨z, hz, hanswer⟩ := (Option.any_eq_true _ _).mp hresumes
  obtain ⟨y, hy⟩ := Option.isSome_iff_exists.mp hlooks
  have hunmet : ∀ o ∈ (parked.tick key).loop.ticks [wait], o.kept = none :=
    List.forall_mem_singleton.mpr hkept'
  obtain ⟨-, hcalls⟩ := (stepping_discipline parked key).resumes z hz (beq_iff_eq.mp hanswer)
    [wait] hunmet wait y hy
  have hbreakpoint : y.seen.breakpoints.contains y.seen.pc = true := by
    refine hcalls.resolve_right ?_
    rintro ⟨u, hu, henters⟩
    obtain rfl : u = wait := by simpa using hu
    exact hcalm henters
  exact ⟨⟨x, hx, hstep, hexecutions⟩, hsecond, hlook, y, hy, hbreakpoint⟩

end Loop
end ChipEight
