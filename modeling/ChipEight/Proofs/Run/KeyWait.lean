import ChipEight.Proofs.Machine.Picture
import ChipEight.Proofs.Run.Beeper

/-!
# Waiting for a key

An instruction that waits for a key parks the machine. The ticks that follow leave it alone but for
its keys, until one brings a key that goes down. That tick hands the key to the instruction and
executes the next one.

Nothing fails in the surroundings here, and there is no debugger.
-/

namespace ChipEight

variable {δ : Type}

/-- Surroundings with given input and without a debugger, in which nothing fails. -/
def Surroundings.calm (events : Events) : Surroundings δ :=
  { poll := .ok events, debugger := none, invalidate := none, draw := none, beeper := none }

open Surroundings (calm)

@[simp] theorem Machine.withKeys_withKeys (m : Machine) (keys more : Vector Bool 16) :
    (m.withKeys keys).withKeys more = m.withKeys more := rfl

@[simp] theorem Machine.runState_withKeys (m : Machine) (keys : Vector Bool 16) :
    (m.withKeys keys).runState = m.runState := rfl

/-- The machine after a key was handed to the instruction that waits for it. -/
def Machine.resumed (m : Machine) (x : Fin 16) (k : UInt8) : Machine :=
  { m.setRegister x (UInt8.ofNat (k.toNat % 16)) with awaiting := none, pc := m.pc + 2 }

namespace Loop

/-! ## Ticks among calm surroundings -/

/-- Drawing cannot fail here. -/
theorem paint_calm (l : Loop) (events : Events) :
    (l.paint (calm events : Surroundings δ)).result = .ok l.machine.runState ∧
      (l.paint (calm events : Surroundings δ)).loop.machine =
        { l.machine with redraw := false } := by
  unfold paint
  dsimp only [Machine.takeRedraw]
  split <;> exact ⟨rfl, rfl⟩

/-- A step that succeeds is followed by a tick of the timers. -/
theorem advance_calm_of_ok {l : Loop} {advance : Advance} {next : Machine} (events : Events)
    (h : l.machine.step = .ok (advance, next)) :
    (l.advance (calm events : Surroundings δ)).result = .ok next.runState ∧
      (l.advance (calm events : Surroundings δ)).loop.machine =
        { next.tickTimers with redraw := false } := by
  rw [advance_of_ok _ h]
  obtain ⟨hresult, hmachine⟩ :=
    (l.follow next none).1.paint_calm events (δ := δ)
  rw [follow, machine_setBeeper] at hresult hmachine
  exact ⟨hresult, hmachine⟩

/-- A step that fails halts the machine, and the timers stay. -/
theorem advance_calm_of_error {l : Loop} {fault : Fault} (events : Events)
    (h : l.machine.step = .error fault) :
    (l.advance (calm events : Surroundings δ)).result = .error (.fault fault) ∧
      (l.advance (calm events : Surroundings δ)).loop.machine = l.machine.halt := by
  rw [advance_of_error _ h]
  exact ⟨rfl, machine_setBeeper _ _ _⟩

/-- Unless the user quits, the machine has its turn with the keys of the tick. -/
theorem tick_calm (l : Loop) {events : Events} (hquit : events.quit = false) :
    ∃ turn, l.turn? (calm events : Surroundings δ) = some turn ∧
      turn.machine = deliver (applyKeys l.machine events.changes) events ∧
      (l.tick (calm events : Surroundings δ)).result =
        (turn.proceed (calm events : Surroundings δ)).result ∧
      (l.tick (calm events : Surroundings δ)).loop =
        (turn.proceed (calm events : Surroundings δ)).loop := by
  unfold turn? tick
  simp only [calm, hquit, Bool.false_eq_true, if_false]
  refine ⟨_, rfl, ?_, rfl, rfl⟩
  rw [machine_turnDebugger]

theorem quit_of_turn? {l turn : Loop} {events : Events}
    (h : l.turn? (calm events : Surroundings δ) = some turn) : events.quit = false := by
  unfold turn? at h
  dsimp only [calm] at h
  split at h
  · cases h
  · exact eq_false_of_ne_true ‹_›

/-! ## Parked machines -/

theorem deliver_of_press {events : Events} {x : Fin 16} {k : UInt8}
    (hrunning : m.running = true) (hawaiting : m.awaiting = some x)
    (hpress : events.firstPress = some k) : deliver m events = m.resumed x k := by
  have hwaiting : m.runState = .waiting :=
    Machine.runState_eq_waiting_iff.mpr ⟨hrunning, x, hawaiting⟩
  rw [deliver, hwaiting, hpress]
  show (m.deliverKey k).2 = _
  rw [Machine.deliverKey, hawaiting]
  rfl

/-- A machine whose turn ends in a wait has executed the instruction that waits for a key. -/
theorem readKey_of_proceed {turn : Loop} {events : Events}
    (hrunning : turn.machine.runState = .running)
    (hresult : (turn.proceed (calm events : Surroundings δ)).result = .ok .waiting) :
    turn.machine.operation? = some .readKey ∧
      (turn.proceed (calm events : Surroundings δ)).loop.machine =
        { turn.machine.tickTimers with
          awaiting := some turn.machine.operands.x
          redraw := false } := by
  unfold proceed at hresult ⊢
  rw [hrunning] at hresult ⊢
  dsimp only at hresult ⊢
  cases hstep : turn.machine.step with
  | error fault =>
    rw [(advance_calm_of_error events hstep).1] at hresult
    cases hresult
  | ok result =>
    obtain ⟨advance, next⟩ := result
    obtain ⟨hnext, hmachine⟩ := advance_calm_of_ok (δ := δ) events hstep
    have hwaiting : next.runState = .waiting := Except.ok.inj (hnext.symm.trans hresult)
    obtain ⟨-, x, hx⟩ := Machine.runState_eq_waiting_iff.mp hwaiting
    have hawaiting : next.awaiting ≠ none := by
      rw [hx]
      exact nofun
    obtain ⟨hread, rfl⟩ := Machine.readKey_of_step hstep
      (Machine.runState_eq_running_iff.mp hrunning).2 hawaiting
    exact ⟨hread, hmachine⟩

/-- A tick without a key that goes down changes nothing but the keys. -/
theorem tick_of_waiting {l : Loop} {events : Events} (hwaiting : l.machine.runState = .waiting)
    (hredraw : l.machine.redraw = false) (hpress : events.firstPress = none)
    (hquit : events.quit = false) :
    (l.tick (calm events : Surroundings δ)).result = .ok .waiting ∧
      ∃ keys, (l.tick (calm events : Surroundings δ)).loop.machine = l.machine.withKeys keys := by
  obtain ⟨turn, -, hturn, hresult, hloop⟩ := l.tick_calm hquit (δ := δ)
  have hmachine : turn.machine = l.machine.withKeys (applyKeys l.machine events.changes).keys := by
    rw [hturn, deliver_of_no_press _ hpress]
    exact applyKeys_eq l.machine events.changes
  generalize (applyKeys l.machine events.changes).keys = keys at hmachine
  have hstate : turn.machine.runState = .waiting := by
    rwa [hmachine, Machine.runState_withKeys]
  rw [hresult, hloop, proceed, hstate]
  obtain ⟨hpaint, hpainted⟩ := turn.paint_calm events (δ := δ)
  refine ⟨hpaint.trans (congrArg Except.ok hstate), keys, hpainted.trans ?_⟩
  rw [hmachine, ← hredraw]
  rfl

/-- Ticks without a key that goes down leave a parked machine where it is. -/
theorem ticks_of_waiting {l : Loop} {waits : List Events}
    (hwaiting : l.machine.runState = .waiting) (hredraw : l.machine.redraw = false)
    (hwaits : ∀ events ∈ waits, events.firstPress = none ∧ events.quit = false) :
    (∃ keys, (l.afterTicks (waits.map calm : List (Surroundings δ))).machine =
      l.machine.withKeys keys) ∧
    ∀ o ∈ l.ticks (waits.map calm : List (Surroundings δ)), o.result = .ok .waiting ∧
      ∃ keys, o.loop.machine = l.machine.withKeys keys := by
  -- Other keys change neither the wait nor what is to be drawn, so each tick leaves a machine that
  -- the next one leaves alone as well.
  induction waits generalizing l with
  | nil => exact ⟨⟨l.machine.keys, rfl⟩, fun o ho => absurd ho List.not_mem_nil⟩
  | cons events rest ih =>
    obtain ⟨hpress, hquit⟩ := hwaits events List.mem_cons_self
    obtain ⟨hresult, keys, hmachine⟩ := tick_of_waiting (δ := δ) hwaiting hredraw hpress hquit
    have hstill : (l.tick (calm events : Surroundings δ)).loop.machine.runState = .waiting := by
      rwa [hmachine, Machine.runState_withKeys]
    have hclear : (l.tick (calm events : Surroundings δ)).loop.machine.redraw = false := by
      rw [hmachine]
      exact hredraw
    obtain ⟨hafter, hlater⟩ := ih hstill hclear fun e he => hwaits e (List.mem_cons_of_mem _ he)
    rw [hmachine] at hafter hlater
    refine ⟨hafter, fun o ho => ?_⟩
    obtain rfl | ho := List.mem_cons.mp ho
    · exact ⟨hresult, keys, hmachine⟩
    · exact hlater o ho

/-- The tick with the key resumes the machine, and goes on with the next instruction. -/
theorem tick_eq_advance_of_press {l : Loop} {events : Events} {x : Fin 16} {k : UInt8}
    (hrunning : l.machine.running = true) (hawaiting : l.machine.awaiting = some x)
    (hpress : events.firstPress = some k) (hquit : events.quit = false) :
    ∃ turn : Loop, turn.machine = (applyKeys l.machine events.changes).resumed x k ∧
      (l.tick (calm events : Surroundings δ)).result =
        (turn.advance (calm events : Surroundings δ)).result ∧
      (l.tick (calm events : Surroundings δ)).loop =
        (turn.advance (calm events : Surroundings δ)).loop := by
  obtain ⟨turn, -, hturn, hresult, hloop⟩ := l.tick_calm hquit (δ := δ)
  have hkeys := applyKeys_eq l.machine events.changes
  have hdelivered : turn.machine = (applyKeys l.machine events.changes).resumed x k := by
    rw [hturn, deliver_of_press ?_ ?_ hpress]
    · rwa [hkeys]
    · rwa [hkeys]
  have hstate : turn.machine.runState = .running := by
    rw [hdelivered, hkeys]
    exact Machine.runState_eq_running_iff.mpr ⟨hrunning, rfl⟩
  refine ⟨turn, hdelivered, ?_⟩
  rw [hresult, hloop, proceed, hstate]
  exact ⟨rfl, rfl⟩

/-- The next instruction is executed once in the tick with the key, and the timers tick if it
succeeds. -/
theorem tick_of_press {l : Loop} {events : Events} {x : Fin 16} {k : UInt8} {resumed : Machine}
    (hrunning : l.machine.running = true) (hawaiting : l.machine.awaiting = some x)
    (hpress : events.firstPress = some k) (hquit : events.quit = false)
    (hresumed : (applyKeys l.machine events.changes).resumed x k = resumed) :
    (∀ advance next, resumed.step = .ok (advance, next) →
      (l.tick (calm events : Surroundings δ)).result = .ok next.runState ∧
        (l.tick (calm events : Surroundings δ)).loop.machine =
          { next.tickTimers with redraw := false }) ∧
    ∀ fault, resumed.step = .error fault →
      (l.tick (calm events : Surroundings δ)).result = .error (.fault fault) ∧
        (l.tick (calm events : Surroundings δ)).loop.machine = resumed.halt := by
  obtain ⟨turn, hturn, hresult, hloop⟩ :=
    tick_eq_advance_of_press (δ := δ) hrunning hawaiting hpress hquit
  obtain rfl : turn.machine = resumed := hturn.trans hresumed
  rw [hresult, hloop]
  exact ⟨fun _ _ hstep => advance_calm_of_ok events hstep,
    fun _ hstep => advance_calm_of_error events hstep⟩

/-- The whole wait. The machine that a tick parks has executed the instruction that waits for a
key, and stays on it. Ticks without a key that goes down change its keys and nothing else. Then the
first key that goes down ends the wait: its number, modulo 16, goes to the register, and the next
instruction is executed in the same tick. The timers tick once if it succeeds, and not at all if it
fails. -/
theorem key_wait (l : Loop) (park : Events) (waits : List Events) {turn : Loop}
    (hturn : l.turn? (calm park : Surroundings δ) = some turn)
    (hrunning : turn.machine.runState = .running)
    (hparks : (l.tick (calm park : Surroundings δ)).result = .ok .waiting)
    (hwaits : ∀ events ∈ waits, events.firstPress = none ∧ events.quit = false) :
    let parked := (l.tick (calm park : Surroundings δ)).loop
    let waited := parked.afterTicks (waits.map calm : List (Surroundings δ))
    let x := turn.machine.operands.x
    (turn.machine.operation? = some .readKey ∧
      parked.machine = { turn.machine.tickTimers with awaiting := some x, redraw := false }) ∧
    (∀ o ∈ parked.ticks (waits.map calm : List (Surroundings δ)), o.result = .ok .waiting ∧
      ∃ keys, o.loop.machine = parked.machine.withKeys keys) ∧
    ∀ press k, press.firstPress = some k → press.quit = false →
      let keys := (applyKeys waited.machine press.changes).keys
      let resumed := (parked.machine.withKeys keys).resumed x k
      let last := waited.tick (calm press : Surroundings δ)
      (∀ advance next, resumed.step = .ok (advance, next) →
        last.result = .ok next.runState ∧
          last.loop.machine = { next.tickTimers with redraw := false }) ∧
      ∀ fault, resumed.step = .error fault →
        last.result = .error (.fault fault) ∧ last.loop.machine = resumed.halt := by
  intro parked waited x
  obtain ⟨_, hsame, -, hresult, hloop⟩ := l.tick_calm (quit_of_turn? hturn) (δ := δ)
  obtain rfl := Option.some.inj (hturn.symm.trans hsame)
  obtain ⟨hread, hmachine⟩ := readKey_of_proceed hrunning (hresult.symm.trans hparks)
  have hparked : parked.machine =
      { turn.machine.tickTimers with awaiting := some x, redraw := false } := by
    rw [← hmachine, ← hloop]
  have hon : parked.machine.running = true := by
    rw [hparked]
    exact (Machine.runState_eq_running_iff.mp hrunning).1
  have hawaiting : parked.machine.awaiting = some x := by rw [hparked]
  have hwaiting : parked.machine.runState = .waiting :=
    Machine.runState_eq_waiting_iff.mpr ⟨hon, x, hawaiting⟩
  have hclear : parked.machine.redraw = false := by rw [hparked]
  obtain ⟨⟨held, hwaited⟩, hticks⟩ := ticks_of_waiting (δ := δ) hwaiting hclear hwaits
  refine ⟨⟨hread, hparked⟩, hticks, fun press k hpress hquit => ?_⟩
  intro keys resumed last
  have hwaitedOn : waited.machine.running = true := by rwa [hwaited]
  have hwaitedFor : waited.machine.awaiting = some x := by rwa [hwaited]
  refine tick_of_press hwaitedOn hwaitedFor hpress hquit ?_
  -- The keys from the wait are lost in those of this tick.
  rw [applyKeys_eq]
  show (waited.machine.withKeys keys).resumed x k = resumed
  rw [hwaited, Machine.withKeys_withKeys]

/-- A wait of two ticks with both timers running, ended by two keys at once of which the first
counts. The timers tick as the machine parks and in the tick with the key, and not in between. -/
theorem key_wait_two_ticks :
    let l : Loop := { machine := {
      ram := ({} : Ram).writeAll 0x200 [0xF3, 0x0A, 0x61, 0x07], delay := 9, sound := 2 } }
    let waits : List Events := [.release 3, { enterDebug := true }]
    let press : Events := { changes := [⟨0x1B, true⟩, ⟨2, true⟩] }
    let parked := (l.tick (calm {} : Surroundings Unit)).loop
    let waited := parked.afterTicks (waits.map calm : List (Surroundings Unit))
    let resumed := (parked.machine.withKeys (applyKeys waited.machine press.changes).keys).resumed 3
      0x1B
    let last := (waited.tick (calm press : Surroundings Unit)).loop.machine
    l.turn? (calm {} : Surroundings Unit) = some l ∧ l.machine.runState = .running ∧
      (l.tick (calm {} : Surroundings Unit)).result = .ok .waiting ∧
      (∀ events ∈ waits, events.firstPress = none ∧ events.quit = false) ∧
      press.firstPress = some 0x1B ∧
      (∃ advance next, resumed.step = .ok (advance, next) ∧
        last = { next.tickTimers with redraw := false }) ∧
      (waited.machine.delay, waited.machine.sound) = (8, 1) ∧ (last.delay, last.sound) = (7, 0) ∧
      (last.register 3, last.register 1, last.pc) = (0xB, 7, 0x204) := by
  intro l waits press parked waited resumed last
  have hturn : l.turn? (calm {} : Surroundings Unit) = some l := rfl
  have hrunning : l.machine.runState = .running := by decide +kernel
  have hparks : (l.tick (calm {} : Surroundings Unit)).result = .ok .waiting := by decide +kernel
  have hwaits : ∀ events ∈ waits, events.firstPress = none ∧ events.quit = false := by decide
  have hx : l.machine.operands.x = 3 := by decide +kernel
  obtain ⟨-, -, hpress⟩ := key_wait l {} waits hturn hrunning hparks hwaits
  refine ⟨hturn, hrunning, hparks, hwaits, rfl, ?_, ?_⟩
  · have hok : resumed.step.toOption.isSome := by decide +kernel
    cases hstep : resumed.step with
    | error fault =>
      rw [hstep] at hok
      cases hok
    | ok result =>
      obtain ⟨advance, next⟩ := result
      have hlast := hpress press 0x1B rfl rfl
      rw [hx] at hlast
      exact ⟨advance, next, rfl, (hlast.1 advance next hstep).2⟩
  · decide +kernel

end Loop
end ChipEight
