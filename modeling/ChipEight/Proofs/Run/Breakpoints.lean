import ChipEight.Proofs.Machine.AddressBits
import ChipEight.Proofs.Run.Stepping

/-!
# Breakpoints

A breakpoint is a number of sixteen bits, and so is the program counter. The loop compares the two.
But an instruction is fetched from the cell that the low twelve bits of the program counter select,
so a program that runs on behind the last cell, or jumps there, executes instructions of cells that
have a breakpoint while its program counter is another number.

Here the cells are compared, and what the loop heeds of their breakpoints is told exactly.
-/

namespace ChipEight

variable {δ : Type}

/-- The address of the cell from which the next instruction is fetched. -/
def Machine.fetchAddress (m : Machine) : UInt16 := UInt16.ofNat (Ram.cell m.pc).val

/-- The cell from which the next instruction is fetched has a breakpoint. -/
def Machine.AtBreakpoint (m : Machine) : Prop := m.breakpoints.contains m.fetchAddress = true

instance (m : Machine) : Decidable m.AtBreakpoint := inferInstanceAs (Decidable (_ = true))

namespace Machine

variable {m : Machine}

theorem toNat_fetchAddress (m : Machine) : m.fetchAddress.toNat = m.pc.toNat % 4096 := by
  rw [fetchAddress, UInt16.toNat_ofNat']
  exact Nat.mod_eq_of_lt (Nat.lt_trans (Ram.cell m.pc).isLt (by decide))

theorem congruent_fetchAddress (m : Machine) : Congruent m.pc m.fetchAddress := by
  rw [Congruent, toNat_fetchAddress, Nat.mod_mod]

/-- The instruction is the word at this address. -/
theorem currentWord_eq_word (m : Machine) : m.currentWord = m.ram.word m.fetchAddress :=
  m.ram.word_congr m.congruent_fetchAddress

/-- Inside memory, the program counter is the address of the fetch. -/
theorem fetchAddress_eq_iff : m.fetchAddress = m.pc ↔ m.pc.toNat < 4096 := by
  rw [← UInt16.toNat_inj, toNat_fetchAddress]
  omega

end Machine

namespace Loop

variable {l k : Loop} {s : Surroundings δ}

/-! ## Instructions that are due -/

/-- The events of a tick leave a loop in debug mode, with a debugger attached, whose machine is
about to execute an instruction. -/
structure Due (l : Loop) (s : Surroundings δ) (k : Loop) : Prop where
  heard : l.heard? s = some k
  debugging : k.debugging = true
  attached : s.debugger.isSome
  running : k.machine.runState = .running

/-- Events that bring nothing leave the loop alone. -/
theorem heard_nothing (l : Loop) (attached : Bool) : l.heard {} attached = l := by
  rw [heard_eq, deliver_of_no_press _ rfl]
  simp [applyKeys]

/-- The debugger looks at a machine in a tick, before the instruction of the tick, which is executed
by the machine that the debugger hands back. -/
def LooksFirst (l : Loop) (s : Surroundings δ) (m : Machine) : Prop :=
  ∃ visit : Visit δ, l.meeting? s = some ⟨m, visit⟩ ∧
    (∃ later, (l.tick s).moments = visit.claims ++ .look m.pc visit.action :: later ∧
      ∀ moment ∈ later, moment.isLook = false) ∧
    ∀ executing, l.executes? s = some executing → executing = visit.machine.requestRedraw

theorem looksFirst_of_meeting? {m : Machine} {visit : Visit δ}
    (h : l.meeting? s = some ⟨m, visit⟩) : l.LooksFirst s m := by
  have hmoments := l.moments_tick s
  rw [h, Option.toList_some, List.flatMap_singleton, List.append_assoc] at hmoments
  refine ⟨visit, h, ⟨_, hmoments, ?_⟩, fun executing hexecuting =>
    executes?_of_meeting? h hexecuting⟩
  intro moment hmoment
  split at hmoment
  · obtain ⟨m, -, rfl⟩ := List.mem_map.mp hmoment
    rfl
  · cases hmoment

/-- How the debugger meets the machine before a due instruction. -/
theorem Due.meeting? (h : l.Due s k) :
    l.meeting? s = if k.shouldPause then s.debugger.map fun visit => ⟨k.machine, visit k.machine⟩
      else none := by
  rw [Loop.meeting?, h.heard, Option.bind_some, encounter?]
  cases s.debugger with
  | none => exact (ite_self _).symm
  | some visit => rfl

/-- Without a look, a due instruction is executed as the events left the machine. -/
theorem Due.executes? (h : l.Due s k) (hmeeting : l.meeting? s = none) :
    l.executes? s = some k.machine := by
  have hheard := h.heard
  rw [heard?] at hheard
  rw [Loop.executes?]
  cases l.stages s with
  | fails cause hpoll =>
    rw [hpoll] at hheard
    cases hheard
  | quits events hpoll hquit =>
    rw [hpoll] at hheard
    cases hheard.symm.trans (if_pos hquit)
  | proceeds events k' told hpoll hquit hk' htold hpause hnone hturn =>
    rw [hpoll] at hheard
    dsimp only at hheard
    rw [if_neg (ne_true_of_eq_false hquit), hk'] at hheard
    obtain rfl := Option.some.inj hheard
    rw [hturn]
    exact if_pos h.running
  | meets events k' told visit hpoll hquit hk' htold hpause hdebugger hmeets =>
    rw [hmeeting] at hmeets
    cases hmeets

/-- The debugger looks first if it is to step, or if the program counter itself has a
breakpoint. -/
theorem Due.looksFirst_iff (h : l.Due s k) :
    l.LooksFirst s k.machine ↔
      k.stepping = true ∨ k.machine.breakpoints.contains k.machine.pc = true := by
  have hpause : k.shouldPause = true ↔
      k.stepping = true ∨ k.machine.breakpoints.contains k.machine.pc = true := by
    rw [shouldPause_iff]
    exact ⟨fun hp => hp.2.2, fun hcalls => ⟨h.debugging, h.running, hcalls⟩⟩
  rw [← hpause]
  constructor
  · rintro ⟨visit, hmeeting, -⟩
    by_contra hnot
    rw [h.meeting?, if_neg hnot] at hmeeting
    cases hmeeting
  · intro hpause
    obtain ⟨visit, hvisit⟩ := Option.isSome_iff_exists.mp h.attached
    apply looksFirst_of_meeting?
    rw [h.meeting?, if_pos hpause, hvisit]
    rfl

/-! ## Runs -/

/-- Something holds in every tick of a run in which an instruction is due, of the loop, the
surroundings and the loop as the events left it. -/
def EachDue (P : Loop → Surroundings δ → Loop → Prop) (l : Loop) : List (Surroundings δ) → Prop
  | [] => True
  | s :: rest => (∀ k, l.Due s k → P l s k) ∧ (l.tick s).loop.EachDue P rest

theorem EachDue.mono {P Q : Loop → Surroundings δ → Loop → Prop} {ss : List (Surroundings δ)}
    (h : l.EachDue P ss) (himp : ∀ l s k, l.Due s k → P l s k → Q l s k) : l.EachDue Q ss := by
  -- The loop changes from tick to tick.
  induction ss generalizing l with
  | nil => trivial
  | cons s rest ih => exact ⟨fun k hk => himp l s k hk (h.1 k hk), ih h.2⟩

theorem EachDue.and {P Q : Loop → Surroundings δ → Loop → Prop} {ss : List (Surroundings δ)}
    (hP : l.EachDue P ss) (hQ : l.EachDue Q ss) :
    l.EachDue (fun l s k => P l s k ∧ Q l s k) ss := by
  induction ss generalizing l with
  | nil => trivial
  | cons s rest ih => exact ⟨fun k hk => ⟨hP.1 k hk, hQ.1 k hk⟩, ih hP.2 hQ.2⟩

/-- What holds in every tick holds in the last one. -/
theorem EachDue.last {P : Loop → Surroundings δ → Loop → Prop} {before : List (Surroundings δ)}
    (h : l.EachDue P (before ++ [s])) (hdue : (l.afterTicks before).Due s k) :
    P (l.afterTicks before) s k := by
  induction before generalizing l with
  | nil => exact h.1 k hdue
  | cons t before ih => exact ih h.2 hdue

/-- A due instruction in a cell with a breakpoint is not executed before the debugger has looked. -/
def Heeds (l : Loop) (s : Surroundings δ) (k : Loop) : Prop :=
  k.machine.AtBreakpoint → l.LooksFirst s k.machine

/-- The breakpoints of the cells that a run comes to are heeded exactly if, wherever it comes to
one, the debugger is to step or the program counter itself has a breakpoint. So all of them are if
the program counter stays inside memory. And if the breakpoints are all inside memory, those that it
comes to with the program counter outside are heeded only where the debugger is to step. -/
theorem breakpoints_heeded_iff (l : Loop) (ss : List (Surroundings δ)) :
    (l.EachDue Heeds ss ↔
      l.EachDue (fun _ _ k => k.machine.AtBreakpoint →
        k.stepping = true ∨ k.machine.breakpoints.contains k.machine.pc = true) ss) ∧
    (l.EachDue (fun _ _ k => k.machine.pc.toNat < 4096) ss → l.EachDue Heeds ss) ∧
    (l.EachDue (fun _ _ k => ∀ a, k.machine.breakpoints.contains a = true → a.toNat < 4096) ss →
      (l.EachDue Heeds ss ↔
        l.EachDue (fun _ _ k => k.machine.AtBreakpoint →
          k.stepping = true ∨ k.machine.pc.toNat < 4096) ss)) := by
  have hinside : ∀ m : Machine, m.AtBreakpoint → m.pc.toNat < 4096 →
      m.breakpoints.contains m.pc = true := by
    intro m hat hpc
    rw [Machine.AtBreakpoint, Machine.fetchAddress_eq_iff.mpr hpc] at hat
    exact hat
  refine ⟨⟨fun h => ?_, fun h => ?_⟩, fun hpc => ?_, fun hbreakpoints => ⟨fun h => ?_, fun h => ?_⟩⟩
  · exact h.mono fun l s k hdue hheeds hat => hdue.looksFirst_iff.mp (hheeds hat)
  · exact h.mono fun l s k hdue hcalls hat => hdue.looksFirst_iff.mpr (hcalls hat)
  · exact hpc.mono fun l s k hdue hpc hat => hdue.looksFirst_iff.mpr (.inr (hinside _ hat hpc))
  · refine (hbreakpoints.and h).mono fun l s k hdue hboth hat => ?_
    exact (hdue.looksFirst_iff.mp (hboth.2 hat)).imp_right (hboth.1 _)
  · refine h.mono fun l s k hdue hcalls hat => ?_
    exact hdue.looksFirst_iff.mpr ((hcalls hat).imp_right (hinside _ hat))

/-- A breakpoint behind a wait for a key, which the key takes the program counter to. -/
theorem breakpoints_heeded_behind_wait :
    let l : Loop := {
      machine := {
        ram := ({} : Ram).writeAll 0x200 [0xF0, 0x0A]
        breakpoints := AddressSet.empty.insert 0x202 }
      debugging := true }
    let watched (events : Events) : Surroundings Unit :=
      { poll := .ok events
        debugger := some fun m => { action := .resume, machine := m, notices := [], kept := () }
        invalidate := none, draw := none, beeper := none }
    let wait := watched {}
    let key := watched (.press 7)
    l.EachDue Heeds [wait, key] ∧
    l.EachDue (fun _ _ k => k.machine.AtBreakpoint →
      k.stepping = true ∨ k.machine.pc.toNat < 4096) [wait, key] ∧
    ∃ k, (l.afterTicks [wait]).Due key k ∧ k.machine.pc = 0x202 ∧
      (l.afterTicks [wait]).LooksFirst key k.machine := by
  intro l watched wait key
  have hfirst : l.heard? wait = some l := rfl
  let k := (l.tick wait).loop.heard (.press 7) true
  have hsecond : (l.tick wait).loop.heard? key = some k := rfl
  have heach : l.EachDue (fun _ _ k => k.machine.pc.toNat < 4096 ∧
      k.machine.breakpoints = AddressSet.empty.insert 0x202) [wait, key] := by
    refine ⟨fun l' hdue => ?_, fun k' hdue => ?_, trivial⟩
    · obtain rfl := Option.some.inj (hfirst.symm.trans hdue.heard)
      decide +kernel
    · obtain rfl := Option.some.inj (hsecond.symm.trans hdue.heard)
      decide +kernel
  have hinside : ∀ a, (AddressSet.empty.insert 0x202).contains a = true → a.toNat < 4096 := by
    intro a ha
    rw [AddressSet.contains_insert, Bool.or_eq_true, beq_iff_eq] at ha
    obtain rfl | hnone := ha
    · decide
    · cases hnone
  obtain ⟨-, hmemory, hbreakpoints⟩ := breakpoints_heeded_iff l [wait, key]
  have hheeds : l.EachDue Heeds [wait, key] := hmemory (heach.mono fun _ _ _ _ h => h.1)
  have hcalls := (hbreakpoints (heach.mono fun _ _ _ _ h => h.2 ▸ hinside)).mp hheeds
  have hdue : (l.afterTicks [wait]).Due key k :=
    ⟨hsecond, by decide +kernel, rfl, by decide +kernel⟩
  have hlast : l.EachDue Heeds ([wait] ++ [key]) := hheeds
  have hlooks : k.machine.AtBreakpoint → (l.afterTicks [wait]).LooksFirst key k.machine :=
    hlast.last hdue
  exact ⟨hheeds, hcalls, k, hdue, by decide +kernel, hlooks (by decide +kernel)⟩

/-- A program that clears the screen from free memory. It writes the instruction to `0x0F0` and
jumps to `0x10F0`. -/
theorem breakpoint_missed_behind_memory :
    let l : Loop := {
      machine := {
        ram := ({} : Ram).writeAll 0x200
          [0xA0, 0xF0, 0x61, 0xE0, 0xF2, 0x55, 0x60, 0xFF, 0xBF, 0xF1]
        breakpoints := AddressSet.empty.insert 0x0F0 }
      debugging := true }
    let s : Surroundings Unit :=
      { poll := .ok {}
        debugger := some fun m => { action := .quit, machine := m, notices := [], kept := () }
        invalidate := none, draw := none, beeper := none }
    let before := List.replicate 5 s
    let k := l.afterTicks before
    k.Due s k ∧ k.machine.pc = 0x10F0 ∧ k.machine.AtBreakpoint ∧
      k.machine.currentWord = k.machine.ram.word 0x0F0 ∧ k.machine.currentWord = 0x00E0 ∧
      k.meeting? s = none ∧ k.executes? s = some k.machine ∧ ¬l.EachDue Heeds (before ++ [s]) := by
  intro l s before k
  obtain ⟨hdebugging, hrunning, hpc, hfetch, hat, hclear, hpause⟩ :
      k.debugging = true ∧ k.machine.runState = .running ∧ k.machine.pc = 0x10F0 ∧
        k.machine.fetchAddress = 0x0F0 ∧ k.machine.AtBreakpoint ∧
        k.machine.currentWord = 0x00E0 ∧ ¬k.shouldPause = true := by
    decide +kernel
  have hword : k.machine.currentWord = k.machine.ram.word 0x0F0 := by
    rw [Machine.currentWord_eq_word, hfetch]
  have hdue : k.Due s k := ⟨congrArg some (k.heard_nothing true), hdebugging, rfl, hrunning⟩
  have hmeeting : k.meeting? s = none := hdue.meeting?.trans (if_neg hpause)
  refine ⟨hdue, hpc, hat, hword, hclear, hmeeting, hdue.executes? hmeeting, fun hheeds => ?_⟩
  obtain ⟨visit, hvisit, -⟩ := hheeds.last hdue hat
  rw [hmeeting] at hvisit
  cases hvisit

end Loop
end ChipEight
