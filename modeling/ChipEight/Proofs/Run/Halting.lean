import ChipEight.Proofs.Run.Stages

/-!
# Halting is final

A tick that ends a run leaves a machine that has stopped, whatever stopped it. A stopped machine
gets its keys, and the user may still turn the debugger on and off or quit; but no later tick looks
at it, has it execute an instruction, draws it or switches its beeper on.
-/

namespace ChipEight

variable {δ : Type}

/-- What may still happen around a machine that has stopped: something is told, though not of an
instruction, or the beeper is switched off. -/
def Happening.IsTrailing : Happening → Prop
  | .notice (.executing _ _) | .paused _ _ | .invalidated | .beep | .drawn _ _ => False
  | .notice _ | .stop => True

theorem Machine.halt_of_stopped {m : Machine} (h : m.running = false) : m.halt = m := by
  rw [halt, ← h]

namespace Loop

variable {l : Loop} {s : Surroundings δ}

/-! ## The tick that ends a run -/

theorem running_of_stops_proceed (h : Stops (l.proceed s).result) :
    (l.proceed s).loop.machine.running = false := by
  unfold proceed at h ⊢
  cases hstate : l.machine.runState with
  | halted => exact runState_eq_halted_iff.mp hstate
  | waiting =>
    rw [hstate] at h
    have hpainted := running_of_stops_paint h
    dsimp only
    rw [loop_paint]
    exact hpainted
  | running =>
    rw [hstate] at h
    dsimp only at h ⊢
    cases hstep : l.machine.step with
    | error fault =>
      rw [advance_of_error s hstep, loop_halt]
      rfl
    | ok result =>
      rw [advance_of_ok s hstep] at h ⊢
      have hpainted := running_of_stops_paint h
      show ((l.follow result.2 s.beeper).1.paint s).loop.machine.running = false
      rw [loop_paint]
      exact hpainted

/-- Whatever ends a run, the machine has stopped. -/
theorem running_of_stops_tick (h : Stops (l.tick s).result) :
    (l.tick s).loop.machine.running = false := by
  have hcourse := l.course_tick s
  generalize l.turn? s = turn? at hcourse
  generalize l.tick s = o at h hcourse ⊢
  cases hcourse with
  | proceeds turn told hbeeping hquiet hloop hresult hhappenings =>
    rw [hresult] at h
    rw [hloop]
    exact running_of_stops_proceed h
  | quits last told hbeeping hquiet hloop hhappenings =>
    rw [hloop, loop_halt]
    rfl
  | fails cause hbeeping hquiet hresult =>
    rw [hresult] at h
    obtain h | ⟨fault, h⟩ := h <;> cases h

/-! ## Later ticks -/

theorem deliver_of_halted {m : Machine} (h : m.runState = .halted) (events : Events) :
    deliver m events = m := by
  rw [deliver, h]

theorem mem_halt {answer : Option String} {x : Happening} (hx : x ∈ (l.halt answer).2) :
    x.IsTrailing := by
  unfold halt setBeeper at hx
  split at hx
  · exact absurd hx List.not_mem_nil
  · obtain rfl | hx := List.mem_cons.mp hx
    · exact trivial
    · obtain ⟨text, -, rfl⟩ := List.mem_map.mp hx
      exact trivial

/-- A stopped machine gets its keys, and that is all. -/
theorem tick_of_stopped (hstopped : l.machine.running = false) {events : Events}
    (hpoll : s.poll = .ok events) :
    (l.tick s).result = .ok .halted ∧ l.executes? s = none ∧ (l.tick s).kept = none ∧
      (∀ x ∈ (l.tick s).happenings, x.IsTrailing) ∧
      (l.tick s).loop.machine = l.machine.withKeys (applyKeys l.machine events.changes).keys := by
  have hkeys := applyKeys_eq l.machine events.changes
  have hhalted : (applyKeys l.machine events.changes).runState = .halted := by
    rw [hkeys]
    exact runState_eq_halted_iff.mpr hstopped
  have hresting : (l.heard events s.debugger.isSome).machine.runState ≠ .running := by
    rw [heard_eq]
    dsimp only
    rw [deliver_of_halted hhalted, hhalted]
    exact nofun
  obtain ⟨hunmet, hnone⟩ := unmet_of_resting hpoll hresting
  rw [kept_tick, hunmet]
  cases l.stages s with
  | fails cause hfailed =>
    rw [hpoll] at hfailed
    cases hfailed
  | quits _ hpoll' _ _ _ htick =>
    obtain rfl := Except.ok.inj (hpoll.symm.trans hpoll')
    rw [htick]
    refine ⟨rfl, hnone, rfl, fun x hx => ?_, ?_⟩
    · obtain rfl | hx := List.mem_cons.mp hx
      · exact trivial
      · exact mem_halt hx
    · rw [loop_halt, ← hkeys]
      exact Machine.halt_of_stopped (runState_eq_halted_iff.mp hhalted)
  | proceeds _ k told hpoll' _ hheard htold _ _ _ htick =>
    obtain rfl := Except.ok.inj (hpoll.symm.trans hpoll')
    have hmachine : k.machine = applyKeys l.machine events.changes := by
      rw [← hheard, heard_eq]
      exact deliver_of_halted hhalted events
    have hproceed : k.proceed s = { loop := k, result := .ok .halted, happenings := [] } := by
      rw [proceed, hmachine, hhalted]
    rw [htick, hproceed]
    refine ⟨rfl, hnone, rfl, fun x hx => ?_, hmachine.trans hkeys⟩
    rw [htold x ((List.append_nil told).subst hx)]
    exact trivial
  | meets _ _ _ _ _ _ _ _ _ _ hmeeting =>
    -- The debugger looks at running machines only.
    rw [hunmet] at hmeeting
    cases hmeeting

theorem running_tick_of_stopped (hstopped : l.machine.running = false) :
    (l.tick s).loop.machine.running = false := by
  cases hpoll : s.poll with
  | error cause =>
    rw [tick, hpoll]
    exact hstopped
  | ok events =>
    obtain ⟨-, -, -, -, hmachine⟩ := tick_of_stopped hstopped hpoll
    rw [hmachine]
    exact hstopped

/-! ## Runs -/

theorem running_afterTicks_of_stopped (hstopped : l.machine.running = false)
    (ss : List (Surroundings δ)) : (l.afterTicks ss).machine.running = false := by
  induction ss generalizing l with
  | nil => exact hstopped
  | cons s rest ih => exact ih (running_tick_of_stopped hstopped)

/-- A run that ends well leaves a stopped machine. -/
theorem running_of_run_halted {σ : Type} (host : Host σ δ) (fuel : Nat) (l : Loop) (state : σ)
    (h : (l.run host fuel state).ending = .halted) :
    (l.run host fuel state).loop.machine.running = false := by
  induction fuel generalizing l state with
  | zero => cases h
  | succ fuel ih =>
    unfold run at h ⊢
    dsimp only at h ⊢
    cases hresult : (l.tick (host.offer state)).result with
    | error cause =>
      rw [hresult] at h
      cases h
    | ok last =>
      rw [hresult] at h
      cases last with
      | halted => exact running_of_stops_tick (.inl hresult)
      | running => exact ih _ _ h
      | waiting => exact ih _ _ h

/-- Halting is final. Once a tick has halted the machine, or failed with an instruction, every later
tick whose input does not fail says that the machine is halted. It executes no instruction, the
debugger has nothing to keep from it, nothing is drawn and the beeper is not switched on, and the
machine changes in its keys only. And a run ends well only with a halted machine. -/
theorem halting_is_final (l : Loop) :
    (∀ (ss : List (Surroundings δ)) (s : Surroundings δ),
      Stops ((l.afterTicks ss).tick s).result →
      ∀ (rest : List (Surroundings δ)) (t : Surroundings δ) (events : Events),
        t.poll = .ok events →
        let before := l.afterTicks (ss ++ s :: rest)
        let o := before.tick t
        o.result = .ok .halted ∧ before.executes? t = none ∧ o.kept = none ∧
          (∀ x ∈ o.happenings, x.IsTrailing) ∧
          o.loop.machine = before.machine.withKeys (applyKeys before.machine events.changes).keys) ∧
    ∀ {σ : Type} (host : Host σ δ) (fuel : Nat) (state : σ),
      (l.run host fuel state).ending = .halted →
      (l.run host fuel state).loop.machine.runState = .halted := by
  constructor
  · intro ss s hstops rest t events hpoll
    have hrest : l.afterTicks (ss ++ s :: rest) =
        ((l.afterTicks ss).tick s).loop.afterTicks rest := List.foldl_append
    rw [hrest]
    exact tick_of_stopped (running_afterTicks_of_stopped (running_of_stops_tick hstops) rest) hpoll
  · intro σ host fuel state hending
    exact runState_eq_halted_iff.mpr (running_of_run_halted host fuel l state hending)

/-- A return without a call, then a tick whose input fails, then the user wants the debugger, which
would step, and holds a key down. And a run that ends with an exit. -/
theorem halting_is_final_faulted :
    let l : Loop := { machine := { ram := ({} : Ram).writeAll 0x200 [0x00, 0xEE] } }
    let exits : Loop := { machine := { ram := ({} : Ram).writeAll 0x200 [0x00, 0xFD] } }
    let idle : Surroundings Unit :=
      { poll := .ok {}, debugger := none, invalidate := none, draw := none, beeper := none }
    let deaf : Surroundings Unit := { idle with poll := .error .shortRead }
    let wish : Events := { changes := [⟨5, true⟩], enterDebug := true }
    let visited : Surroundings Unit := { idle with
      poll := .ok wish
      debugger := some fun m => { action := .step, machine := m, notices := [], kept := () } }
    let before := l.afterTicks [idle, deaf]
    let host : Host Unit Unit := { offer := fun _ => idle, absorb := fun state _ => state }
    Stops (l.tick idle).result ∧ (before.tick visited).result = .ok .halted ∧
      (before.tick visited).kept = none ∧
      (before.tick visited).loop.machine =
        before.machine.withKeys (applyKeys before.machine wish.changes).keys ∧
      (exits.run host 3 ()).ending = .halted ∧
      (exits.run host 3 ()).loop.machine.runState = .halted := by
  intro l exits idle deaf wish visited before host
  have hfault : (l.tick idle).result = .error (.fault (.stackUnderflow 0x200)) := by
    decide +kernel
  have hstops : Stops (l.tick idle).result := .inr ⟨_, hfault⟩
  obtain ⟨hresult, -, hkept, -, hmachine⟩ :=
    (halting_is_final l).1 [] idle hstops [deaf] visited wish rfl
  have hending : (exits.run host 3 ()).ending = .halted := by decide +kernel
  exact ⟨hstops, hresult, hkept, hmachine, hending,
    (halting_is_final exits).2 host 3 () hending⟩

end Loop
end ChipEight
