import ChipEight.Proofs.Run.Halting
import ChipEight.Proofs.Run.KeyWait

/-!
# Timers along a run

A timer counts the instructions that succeed: it shows what the last instruction that set it put in,
less the successes from that one on, down to zero. Ticks that wait, that quit or whose instruction
fails, and all ticks of a machine that has stopped, leave it alone. A tick that hands over a key
executes one instruction like any other.

There is no debugger here, since one may set a timer by hand.
-/

namespace ChipEight

variable {δ : Type}

/-! ## The two timers -/

inductive Timer
  | delay
  | sound
  deriving DecidableEq

namespace Timer

/-- What a timer shows. -/
def reading : Timer → Machine → UInt8
  | delay, m => m.delay
  | sound, m => m.sound

/-- The operation that sets a timer. -/
def setter : Timer → Operation
  | delay => .setDelay
  | sound => .setSound

/-- The shape of the words that set a timer. -/
def shape : Timer → Shape
  | delay => ⟨0xF, .free, 1, 5⟩
  | sound => ⟨0xF, .free, 1, 8⟩

/-- A machine stands before an instruction that sets a timer. -/
def Sets (t : Timer) (m : Machine) : Prop := t.shape.Covers m.currentWord

instance (t : Timer) (m : Machine) : Decidable (t.Sets m) :=
  inferInstanceAs (Decidable (t.shape.Covers m.currentWord))

/-- What a timer shows after one more success, by what it showed before. -/
def countdown (t : Timer) (value : Nat) (m : Machine) : Nat :=
  (if t.Sets m then (m.register m.operands.x).toNat else value) - 1

variable {t : Timer} {m next : Machine}

/-! ## One instruction -/

theorem sets_iff {operation : Operation} (h : m.operation? = some operation) :
    t.Sets m ↔ operation = t.setter := by
  obtain ⟨f, hf, rfl⟩ := Option.map_eq_some_iff.mp h
  have hform := (Option.filter_eq_some_iff.mp hf).1
  constructor
  · intro hw
    have hrow : ∃ g ∈ Form.table, g.shape = t.shape ∧ g.operation = t.setter := by
      cases t <;> decide
    obtain ⟨g, hg, hshape, hsetter⟩ := hrow
    rw [Sets, ← hshape] at hw
    rw [eq_of_covers (mem_table_of_find? hform) hg (covers_of_find? hform) hw, hsetter]
  · intro hsetter
    exact covers_of_operation hform hsetter (by cases t <;> decide)

theorem reading_of_touches {operation : Operation} {o : Operands}
    (h : Machine.Touches operation o m next) (hother : operation ≠ t.setter) :
    t.reading next = t.reading m := by
  cases t with
  | delay => exact h.delay hother
  | sound => exact h.sound hother

theorem reading_of_perform_setter {o : Operands} {advance : Advance}
    (h : m.perform o t.setter = .ok (advance, next)) : t.reading next = m.register o.x := by
  cases t <;> cases h <;> rfl

theorem reading_tickTimers (t : Timer) (m : Machine) :
    (t.reading m.tickTimers).toNat = (t.reading m).toNat - 1 := by
  have hbyte := (t.reading m).toNat_lt
  have htick : t.reading m.tickTimers = UInt8.ofNat ((t.reading m).toNat - 1) := by
    cases t <;> rfl
  rw [htick, UInt8.toNat_ofNat']
  omega

/-- An instruction that succeeds sets its timer, and no other. -/
theorem reading_of_step {advance : Advance} (h : m.step = .ok (advance, next)) :
    t.reading next = if t.Sets m then m.register m.operands.x else t.reading m := by
  obtain ⟨operation, performed, hoperation, hperform, rfl⟩ := Machine.exists_perform_of_step h
  by_cases hsetter : operation = t.setter
  · subst hsetter
    rw [if_pos ((sets_iff hoperation).mpr rfl)]
    have hpc : ∀ pc, t.reading { performed with pc } = t.reading performed := by
      intro pc
      cases t <;> rfl
    exact (hpc _).trans (reading_of_perform_setter hperform)
  · rw [if_neg (mt (sets_iff hoperation).mp hsetter)]
    exact reading_of_touches ((Machine.perform_touches hperform).movePc _) hsetter

/-! ## Countdowns -/

/-- Without an instruction that sets the timer, only the number of instructions matters. -/
theorem foldl_countdown_of_not_sets {ms : List Machine} (h : ∀ n ∈ ms, ¬t.Sets n) (value : Nat) :
    ms.foldl t.countdown value = value - ms.length := by
  induction ms generalizing value with
  | nil => rfl
  | cons n rest ih =>
    rw [List.foldl_cons, ih fun k hk => h k (List.mem_cons_of_mem n hk), countdown,
      if_neg (h n List.mem_cons_self), List.length_cons]
    omega

/-- The last instruction that sets the timer makes the earlier ones forgotten. -/
theorem foldl_countdown_of_last {before after : List Machine} (hsets : t.Sets m)
    (hlast : ∀ n ∈ after, ¬t.Sets n) (value : Nat) :
    (before ++ m :: after).foldl t.countdown value =
      (m.register m.operands.x).toNat - (after.length + 1) := by
  rw [List.foldl_append, List.foldl_cons, foldl_countdown_of_not_sets hlast, countdown,
    if_pos hsets]
  omega

/-! ## What leaves a timer alone -/

theorem reading_applyKeys (t : Timer) (m : Machine) (changes : List KeyChange) :
    t.reading (Loop.applyKeys m changes) = t.reading m := by
  rw [Loop.applyKeys_eq]
  cases t <;> rfl

theorem reading_deliver (t : Timer) (m : Machine) (events : Events) :
    t.reading (Loop.deliver m events) = t.reading m := by
  unfold Loop.deliver
  split
  · unfold Machine.deliverKey
    split <;> cases t <;> rfl
  · rfl

end Timer

namespace Loop

variable {l : Loop} {s : Surroundings δ} {t : Timer} {m : Machine}

/-! ## Ticks without a debugger -/

theorem meeting?_of_unattended (hs : s.debugger = none) : l.meeting? s = none := by
  unfold meeting? encounter?
  rw [hs]
  cases l.heard? s <;> rfl

theorem prepared_of_unattended (hs : s.debugger = none) {events : Events}
    (hpoll : s.poll = .ok events) (hquit : events.quit = false) :
    l.prepared s = deliver (applyKeys l.machine events.changes) events := by
  rw [prepared, hpoll, meeting?_of_unattended hs]
  dsimp only
  rw [if_neg (ne_true_of_eq_false hquit), Option.map_none, Option.getD_none, heard_eq]

theorem reading_prepared (hs : s.debugger = none) (t : Timer) :
    t.reading (l.prepared s) = t.reading l.machine := by
  cases hpoll : s.poll with
  | error cause => rw [prepared, hpoll]
  | ok events =>
    cases hquit : events.quit with
    | false => rw [prepared_of_unattended hs hpoll hquit, t.reading_deliver, t.reading_applyKeys]
    | true =>
      rw [prepared, hpoll]
      dsimp only
      rw [if_pos hquit, t.reading_applyKeys]

/-- A tick without a debugger executes an instruction if the machine runs when the user has been
heard. -/
theorem executes?_of_unattended (hs : s.debugger = none) {events : Events}
    (hpoll : s.poll = .ok events) (hquit : events.quit = false) :
    l.executes? s = if (l.prepared s).runState = .running then some (l.prepared s) else none := by
  rw [executes?, prepared_of_unattended hs hpoll hquit]
  cases l.stages s with
  | fails cause hfails =>
    rw [hpoll] at hfails
    cases hfails
  | quits _ hpoll' hquits =>
    obtain rfl := Except.ok.inj (hpoll.symm.trans hpoll')
    rw [hquit] at hquits
    cases hquits
  | proceeds _ k told hpoll' _ hheard _ _ _ hturn =>
    obtain rfl := Except.ok.inj (hpoll.symm.trans hpoll')
    have hk : k.machine = deliver (applyKeys l.machine events.changes) events := by
      rw [← hheard, heard_eq]
    rw [hturn, ← hk]
    rfl
  | meets _ _ _ _ _ _ _ _ _ hdebugger =>
    rw [hs] at hdebugger
    cases hdebugger

theorem executes?_of_deaf {cause : IoError} (hpoll : s.poll = .error cause) :
    l.executes? s = none := by
  rw [executes?, turn?, hpoll]
  rfl

theorem executes?_of_quit {events : Events} (hpoll : s.poll = .ok events)
    (hquit : events.quit = true) : l.executes? s = none := by
  rw [executes?, turn?, hpoll]
  dsimp only
  rw [if_pos hquit]
  rfl

theorem eq_prepared_of_executes? (hs : s.debugger = none) (h : l.executes? s = some m) :
    m = l.prepared s := by
  cases hpoll : s.poll with
  | error cause =>
    rw [executes?_of_deaf hpoll] at h
    cases h
  | ok events =>
    cases hquit : events.quit with
    | true =>
      rw [executes?_of_quit hpoll hquit] at h
      cases h
    | false =>
      rw [executes?_of_unattended hs hpoll hquit] at h
      exact (Option.some.inj (Option.ite_none_right_eq_some.mp h).2).symm

/-! ## Successes -/

/-- The machine that executes its instruction in a tick and succeeds, if one does. -/
def succeeding (l : Loop) (s : Surroundings δ) : List Machine :=
  (l.executes? s).toList.filter (·.step.isOk)

/-- The machines that execute their instruction in a run and succeed, one after another. -/
def successes (l : Loop) (ss : List (Surroundings δ)) : List Machine :=
  (l.executions ss).filter (·.step.isOk)

theorem successes_cons (l : Loop) (s : Surroundings δ) (rest : List (Surroundings δ)) :
    l.successes (s :: rest) = l.succeeding s ++ (l.tick s).loop.successes rest :=
  List.filter_append _ _

theorem succeeding_of_rests (h : l.executes? s = none) : l.succeeding s = [] := by
  rw [succeeding, h]
  rfl

theorem succeeding_of_error {fault : Fault} (h : l.executes? s = some m)
    (hstep : m.step = .error fault) : l.succeeding s = [] := by
  rw [succeeding, h]
  exact List.filter_cons_of_neg (by simp [hstep, Except.isOk, Except.toBool])

theorem succeeding_of_ok {result : Advance × Machine} (h : l.executes? s = some m)
    (hstep : m.step = .ok result) : l.succeeding s = [m] := by
  rw [succeeding, h]
  exact List.filter_cons_of_pos (by simp [hstep, Except.isOk, Except.toBool])

/-- A tick lets the timer count its success, if it has one, and leaves the timer alone if not. -/
theorem reading_tick (hs : s.debugger = none) (t : Timer) :
    (t.reading (l.tick s).loop.machine).toNat =
      (l.succeeding s).foldl t.countdown (t.reading l.machine).toNat := by
  cases hexecutes : l.executes? s with
  | none =>
    obtain ⟨running, redraw, hmachine⟩ := machine_tick_of_rests hexecutes
    have hsame : t.reading { l.prepared s with running, redraw } = t.reading (l.prepared s) := by
      cases t <;> rfl
    rw [succeeding_of_rests hexecutes, hmachine, hsame, reading_prepared hs]
    rfl
  | some m =>
    obtain ⟨-, hmachine⟩ := machine_tick_of_executes? hexecutes
    have hbefore : t.reading m = t.reading l.machine := by
      rw [eq_prepared_of_executes? hs hexecutes, reading_prepared hs]
    rw [hmachine, Machine.executed, ← hbefore]
    cases hstep : m.step with
    | error fault =>
      have hhalt : t.reading m.halt = t.reading m := by cases t <;> rfl
      rw [succeeding_of_error hexecutes hstep]
      exact congrArg UInt8.toNat hhalt
    | ok result =>
      have hdrawn : t.reading { result.2.tickTimers with redraw := false } =
          t.reading result.2.tickTimers := by cases t <;> rfl
      rw [succeeding_of_ok hexecutes hstep]
      show (t.reading { result.2.tickTimers with redraw := false }).toNat = t.countdown _ m
      rw [hdrawn, t.reading_tickTimers, t.reading_of_step hstep, Timer.countdown]
      split <;> rfl

theorem successes_append (l : Loop) (before after : List (Surroundings δ)) :
    l.successes (before ++ after) =
      l.successes before ++ (l.afterTicks before).successes after := by
  induction before generalizing l with
  | nil => rfl
  | cons s rest ih =>
    rw [List.cons_append, successes_cons, successes_cons, ih, List.append_assoc]
    rfl

/-- Along a run, a timer counts the successes and nothing else. -/
theorem reading_afterTicks (l : Loop) {ss : List (Surroundings δ)}
    (hss : ∀ s ∈ ss, s.debugger = none) (t : Timer) :
    (t.reading (l.afterTicks ss).machine).toNat =
      (l.successes ss).foldl t.countdown (t.reading l.machine).toNat := by
  induction ss generalizing l with
  | nil => rfl
  | cons s rest ih =>
    rw [successes_cons, List.foldl_append, ← reading_tick (hss s List.mem_cons_self)]
    exact ih (l.tick s).loop fun r hr => hss r (List.mem_cons_of_mem s hr)

/-! ## Which ticks count -/

theorem deliver_of_running {events : Events} (h : m.runState = .running) : deliver m events = m := by
  rw [deliver, h]

/-- Which tick without a debugger counts: one that is not cut short by its input, of a machine that
does not wait or gets the key that it waits for, if its instruction does not fail. -/
structure Counts (l : Loop) (s : Surroundings δ) : Prop where
  deaf : ∀ cause, s.poll = .error cause → l.succeeding s = []
  quit : ∀ events, s.poll = .ok events → events.quit = true → l.succeeding s = []
  halted : l.machine.runState = .halted → l.succeeding s = []
  waiting : ∀ events, s.poll = .ok events → l.machine.runState = .waiting →
    events.firstPress = none → l.succeeding s = []
  faulted : ∀ fault, (l.tick s).result = .error (.fault fault) → l.succeeding s = []
  running : ∀ events, s.poll = .ok events → events.quit = false →
    l.machine.runState = .running →
    l.succeeding s = [applyKeys l.machine events.changes].filter (·.step.isOk)
  delivering : ∀ events x k, s.poll = .ok events → events.quit = false →
    l.machine.running = true → l.machine.awaiting = some x → events.firstPress = some k →
    l.succeeding s = [(applyKeys l.machine events.changes).resumed x k].filter (·.step.isOk)

theorem runState_applyKeys (m : Machine) (changes : List KeyChange) :
    (applyKeys m changes).runState = m.runState := by
  rw [applyKeys_eq, Machine.runState_withKeys]

theorem succeeding_of_resting (hs : s.debugger = none)
    (h : (l.prepared s).runState ≠ .running) : l.succeeding s = [] := by
  cases hexecutes : l.executes? s with
  | none => exact succeeding_of_rests hexecutes
  | some m =>
    have hrunning := (machine_tick_of_executes? hexecutes).1
    rw [eq_prepared_of_executes? hs hexecutes] at hrunning
    exact absurd hrunning h

theorem succeeding_of_running (hs : s.debugger = none) {events : Events}
    (hpoll : s.poll = .ok events) (hquit : events.quit = false)
    (hrunning : (l.prepared s).runState = .running) :
    l.succeeding s = [l.prepared s].filter (·.step.isOk) := by
  rw [succeeding, executes?_of_unattended hs hpoll hquit, if_pos hrunning]
  rfl

theorem result_paint_ne_fault (l : Loop) (s : Surroundings δ) (fault : Fault) :
    (l.paint s).result ≠ .error (.fault fault) := by
  intro h
  unfold paint at h
  dsimp only at h
  split at h
  · split at h <;> cases h
  · cases h

/-- A tick fails with an instruction only if the instruction fails. -/
theorem succeeding_of_faulted {fault : Fault} (h : (l.tick s).result = .error (.fault fault)) :
    l.succeeding s = [] := by
  cases hexecutes : l.executes? s with
  | none => exact succeeding_of_rests hexecutes
  | some m =>
    obtain ⟨turn, hturn, hacts⟩ := Option.bind_eq_some_iff.mp hexecutes
    obtain ⟨hrunning, hm⟩ := Option.ite_none_right_eq_some.mp hacts
    obtain rfl := Option.some.inj hm
    have hcourse := l.course_tick s
    rw [hturn] at hcourse
    cases hcourse with
    | proceeds turn told hbeeping hquiet hloop hresult hhappenings =>
      rw [hresult, proceed, hrunning] at h
      dsimp only at h
      cases hstep : turn.machine.step with
      | error fault => exact succeeding_of_error hexecutes hstep
      | ok result =>
        rw [advance_of_ok s hstep] at h
        exact absurd h (result_paint_ne_fault _ s fault)

theorem counts_of_unattended (l : Loop) (hs : s.debugger = none) : l.Counts s := by
  constructor
  case deaf => exact fun cause hpoll => succeeding_of_rests (executes?_of_deaf hpoll)
  case quit =>
    exact fun events hpoll hquit => succeeding_of_rests (executes?_of_quit hpoll hquit)
  case halted =>
    intro hhalted
    cases hpoll : s.poll with
    | error cause => exact succeeding_of_rests (executes?_of_deaf hpoll)
    | ok events =>
      cases hquit : events.quit with
      | true => exact succeeding_of_rests (executes?_of_quit hpoll hquit)
      | false =>
        have hstill : (applyKeys l.machine events.changes).runState = .halted := by
          rwa [runState_applyKeys]
        refine succeeding_of_resting hs ?_
        rw [prepared_of_unattended hs hpoll hquit, deliver_of_halted hstill, hstill]
        exact nofun
  case waiting =>
    intro events hpoll hwaiting hpress
    cases hquit : events.quit with
    | true => exact succeeding_of_rests (executes?_of_quit hpoll hquit)
    | false =>
      have hstill : (applyKeys l.machine events.changes).runState = .waiting := by
        rwa [runState_applyKeys]
      refine succeeding_of_resting hs ?_
      rw [prepared_of_unattended hs hpoll hquit, deliver_of_no_press _ hpress, hstill]
      exact nofun
  case faulted => exact fun fault => succeeding_of_faulted
  case running =>
    intro events hpoll hquit hrunning
    have hstill : (applyKeys l.machine events.changes).runState = .running := by
      rwa [runState_applyKeys]
    have hprepared : l.prepared s = applyKeys l.machine events.changes := by
      rw [prepared_of_unattended hs hpoll hquit, deliver_of_running hstill]
    rw [succeeding_of_running hs hpoll hquit (hprepared ▸ hstill), hprepared]
  case delivering =>
    intro events x k hpoll hquit hrunning hawaiting hpress
    have hkeys := applyKeys_eq l.machine events.changes
    have hprepared : l.prepared s = (applyKeys l.machine events.changes).resumed x k := by
      rw [prepared_of_unattended hs hpoll hquit, deliver_of_press ?_ ?_ hpress]
      · rwa [hkeys]
      · rwa [hkeys]
    have hresumed : ((applyKeys l.machine events.changes).resumed x k).runState = .running := by
      refine Machine.runState_eq_running_iff.mpr ⟨?_, rfl⟩
      rw [hkeys]
      exact hrunning
    rw [succeeding_of_running hs hpoll hquit (hprepared ▸ hresumed), hprepared]

/-! ## Runs -/

/-- The law of a timer, for any run without a debugger. If an instruction set the timer, the last one
that did counts: the timer shows the value of its register, less one for that instruction and for
each that succeeded after it. If none did, it shows what it showed before the run, less one for each
that succeeded. No timer falls below zero. And the successes are counted tick by tick. -/
theorem timer_after_run (l : Loop) {ss : List (Surroundings δ)}
    (hss : ∀ s ∈ ss, s.debugger = none) (t : Timer) :
    (∀ before m after, l.successes ss = before ++ m :: after → t.Sets m →
      (∀ n ∈ after, ¬t.Sets n) →
      (t.reading (l.afterTicks ss).machine).toNat =
        (m.register m.operands.x).toNat - (after.length + 1)) ∧
    ((∀ n ∈ l.successes ss, ¬t.Sets n) →
      (t.reading (l.afterTicks ss).machine).toNat =
        (t.reading l.machine).toNat - (l.successes ss).length) ∧
    ∀ before s after, ss = before ++ s :: after →
      let k := l.afterTicks before
      l.successes ss = l.successes before ++ k.succeeding s ++ (k.tick s).loop.successes after ∧
        k.Counts s := by
  have hreading := reading_afterTicks l hss t
  refine ⟨?_, ?_, ?_⟩
  · intro before m after hsplit hsets hlast
    rw [hreading, hsplit, Timer.foldl_countdown_of_last hsets hlast]
  · intro hnone
    rw [hreading, Timer.foldl_countdown_of_not_sets hnone]
  · rintro before s after rfl k
    refine ⟨?_, counts_of_unattended k (hss s (by simp))⟩
    rw [successes_append, successes_cons, List.append_assoc]

/-- A run that sets the delay timer, waits for a key for two ticks, gets it, goes on with one more
instruction and fails with the next: three successes from the one that set the timer on. The sound
timer counts all four. -/
theorem timer_after_run_waited :
    let l : Loop := { machine := {
      ram := ({} : Ram).writeAll 0x200 [0x60, 0x05, 0xF0, 0x15, 0xF1, 0x0A, 0x72, 0x01]
      sound := 9 } }
    let inputs : List Events := [{}, {}, {}, {}, .release 3, .press 7, {}]
    let ss : List (Surroundings Unit) := inputs.map Surroundings.calm
    (∀ s ∈ ss, s.debugger = none) ∧
      (l.successes ss).map (·.currentWord) = [0x6005, 0xF015, 0xF10A, 0x7201] ∧
      (l.afterTicks ss).machine.running = false ∧
      (l.afterTicks ss).machine.delay.toNat = 5 - 3 ∧
      (l.afterTicks ss).machine.sound.toNat = 9 - 4 := by
  intro l inputs ss
  have hss : ∀ s ∈ ss, s.debugger = none := List.forall_mem_map.mpr fun _ _ => rfl
  have hwords : (l.successes ss).map (·.currentWord) = [0x6005, 0xF015, 0xF10A, 0x7201] := by
    decide +kernel
  have hlength : (l.successes ss).length = 4 := by
    rw [← List.length_map, hwords]
    rfl
  have hset : 1 < (l.successes ss).length := by
    rw [hlength]
    decide
  have hsplit : l.successes ss = (l.successes ss).take 1 ++
      (l.successes ss).getD 1 l.machine :: (l.successes ss).drop 2 := by
    rw [List.getD_eq_getElem?_getD, List.getElem?_eq_getElem hset, Option.getD_some,
      ← List.drop_eq_getElem_cons hset, List.take_append_drop]
  have hdelay := (timer_after_run l hss .delay).1 _ _ _ hsplit (by decide +kernel)
    (by decide +kernel)
  have hsound := (timer_after_run l hss .sound).2.1 (by decide +kernel)
  rw [hlength] at hsound
  exact ⟨hss, hwords, by decide +kernel, hdelay.trans (by decide +kernel), hsound⟩

end Loop
end ChipEight
