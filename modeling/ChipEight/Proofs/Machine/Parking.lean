import Mathlib.Data.List.Infix
import ChipEight.Proofs.Instruction.Reading
import ChipEight.Proofs.Machine.Loading
import ChipEight.Proofs.Machine.Picture

/-!
# Where a machine waits

A machine that begins to wait for a key stands on the instruction that waits, and a key that is
handed to it completes that instruction. It stays there as long as it is only given keys. A step
while a key is down moves it: the instruction takes that key itself and the program goes on, but the
machine waits as before, now on whatever comes next. This is the one way in which a machine gets to
wait elsewhere.
-/

namespace ChipEight

/-- The requests of whoever runs a machine: it is stepped, and its keys move. -/
def Request.isPlayed : Request → Bool
  | .step | .setKey .. | .deliverKey _ => true
  | _ => false

/-- The word of the instruction that waits for a key for a register. -/
def readKeyWord (x : Fin 16) : UInt16 := UInt16.ofNat (0xF00A + 0x100 * x.val)

namespace Machine

variable {m : Machine} {x : Fin 16}

/-- If the machine waits for a key, it stands on the instruction that does, and waits for the
register of that instruction. -/
def Parked (m : Machine) : Prop :=
  ∀ x, m.runState = .waiting → m.awaiting = some x → m.currentWord = readKeyWord x

/-- The machine waits although a key is down, and another instruction follows. -/
def Strays (m : Machine) : Prop :=
  m.runState = .waiting ∧ m.pressedKey ≠ none ∧ m.ram.word (m.pc + 2) ≠ m.currentWord

/-- The machine takes a key that is handed to it, and what comes out is what the instruction under
the program counter does with that key down. -/
def CompletedBy (m : Machine) (k : UInt8) : Prop :=
  (m.deliverKey k).1 = true ∧
    ∀ keys, ({ m with keys } : Machine).pressedKey = some (keyNumber k) →
      ({ m with keys, awaiting := none } : Machine).step =
        .ok (.next, { (m.deliverKey k).2 with keys })

/-! ## The instruction that waits -/

theorem operation?_of_readKeyWord (h : m.currentWord = readKeyWord x) :
    m.operation? = some .readKey ∧ m.operands.x = x := by
  -- All dialects have this instruction, the first of them included.
  have hforms : ∀ x : Fin 16, ∃ form, Form.find? (readKeyWord x) = some form ∧
      form.operation = .readKey ∧ form.dialect = .chip8 ∧
      (Operands.ofWord (readKeyWord x)).x = x := by
    decide
  obtain ⟨form, hform, hoperation, hdialect, hx⟩ := hforms x
  have hspoken : decide (form.dialect ≤ m.dialect) = true := by
    rw [hdialect, decide_eq_true_iff]
    exact Dialect.chip8_le _
  refine ⟨?_, ?_⟩
  · simp only [operation?, h, hform, Option.filter_some, hspoken, if_true, Option.map_some,
      hoperation]
  · rw [operands, h, hx]

/-- It is the only word that waits for a key for its register. -/
theorem currentWord_of_readKey (h : m.operation? = some .readKey) :
    m.currentWord = readKeyWord m.operands.x := by
  have hshape : ∀ form ∈ Form.table, form.operation = .readKey →
      form.shape = ⟨0xF, .free, 0, 0xA⟩ := by decide
  obtain ⟨form, hform, hoperation⟩ := Option.map_eq_some_iff.mp h
  have hfind := (Option.filter_eq_some_iff.mp hform).1
  have hfits := fits_of_find? hfind
  rw [hshape form (mem_table_of_find? hfind) hoperation] at hfits
  simp only [Shape.fits, Digit.fits, Bool.and_eq_true, beq_iff_eq, and_true] at hfits
  obtain ⟨⟨hfirst, hthird⟩, hlast⟩ := hfits
  have hdigits := toNat_eq_digits m.currentWord
  rw [← hfirst, ← hthird, ← hlast] at hdigits
  have hlt := (digitAt m.currentWord 2).isLt
  apply UInt16.toNat_inj.mp
  rw [hdigits, readKeyWord, UInt16.toNat_ofNat']
  show 4096 * 15 + 256 * (digitAt m.currentWord 2).val + 16 * 0 + 10 =
    (0xF00A + 0x100 * (digitAt m.currentWord 2).val) % 2 ^ 16
  omega

/-- With a key down, it takes the lowest one and is over. It does not end a wait. -/
theorem step_of_readKey_pressed {k : Fin 16} (h : m.operation? = some .readKey)
    (hx : m.operands.x = x) (hkeys : m.pressedKey = some k) :
    m.step = .ok (.next, { m.setRegister x (UInt8.ofNat k.val) with pc := m.pc + 2 }) := by
  have hexecute := execute_of_operation? h
  rw [perform, hkeys, hx] at hexecute
  exact step_of_execute_eq_ok hexecute

/-! ## One request -/

/-- A machine that is halted stays so. -/
theorem running_serve_step (h : m.running = false) : (m.serve .step).running = false := by
  have heffect := m.step_effect
  generalize hstep : m.step = result at heffect
  cases heffect with
  | unknown | overflow | underflow => rwa [serve_step_of_error hstep]
  | call | ret => rwa [serve_step_of_ok hstep]
  | exit => rw [serve_step_of_ok hstep]; rfl
  | other operation _ _ _ _ advance next hframe =>
    rw [serve_step_of_ok hstep, hframe.running, h]

theorem parked_of_awaiting (h : m.awaiting = none) : m.Parked := by
  intro x _ hx
  rw [h] at hx
  cases hx

/-- A step of a machine that does not wait. -/
theorem parked_serve_step (h : m.runState ≠ .waiting) : (m.serve .step).Parked := by
  intro x hwaiting hx
  obtain ⟨hon, -⟩ := runState_eq_waiting_iff.mp hwaiting
  have hrunning : m.running = true := by
    refine eq_true_of_ne_false fun hoff => ?_
    rw [running_serve_step hoff] at hon
    cases hon
  have hfree : m.awaiting = none := Option.eq_none_iff_forall_ne_some.mpr fun x hx =>
    h (runState_eq_waiting_iff.mpr ⟨hrunning, x, hx⟩)
  cases hstep : m.step with
  | error fault =>
    rw [serve_step_of_error hstep, hfree] at hx
    cases hx
  | ok result =>
    obtain ⟨advance, next⟩ := result
    rw [serve_step_of_ok hstep] at hx ⊢
    have hbegins : next.awaiting ≠ none := by
      rw [hx]
      exact nofun
    obtain ⟨hread, rfl⟩ := readKey_of_step hstep hfree hbegins
    obtain rfl := Option.some.inj hx
    exact currentWord_of_readKey hread

/-- A step of a machine that waits where it should. It stays if no key is down; else it goes on to
the next word, and still waits. -/
theorem parked_serve_step_iff (hparked : m.Parked) (hwaiting : m.runState = .waiting) :
    (m.serve .step).Parked ↔ ¬m.Strays := by
  obtain ⟨hon, x, hx⟩ := runState_eq_waiting_iff.mp hwaiting
  have hword := hparked x hwaiting hx
  obtain ⟨hread, hoperand⟩ := operation?_of_readKeyWord hword
  cases hkeys : m.pressedKey with
  | none =>
    have hsame : m.serve .step = m := by
      rw [serve_step_of_ok (step_of_readKey hread hkeys), hoperand, ← hx]
    rw [hsame]
    exact iff_of_true hparked fun h => h.2.1 hkeys
  | some k =>
    rw [serve_step_of_ok (step_of_readKey_pressed hread hoperand hkeys)]
    constructor
    · intro hnext ⟨_, _, hother⟩
      exact hother ((hnext x hwaiting hx).trans hword.symm)
    · intro hstays y _ hy
      obtain rfl := Option.some.inj (hx.symm.trans hy)
      have hpressed : m.pressedKey ≠ none := by
        rw [hkeys]
        exact nofun
      have hnext : m.ram.word (m.pc + 2) = m.currentWord :=
        Decidable.byContradiction fun hother => hstays ⟨hwaiting, hpressed, hother⟩
      exact hnext.trans hword

/-- What one request does to a machine that waits where it should, if at all. -/
theorem parked_serve_iff {request : Request} (hplayed : request.isPlayed = true)
    (hparked : m.Parked) : (m.serve request).Parked ↔ ¬(request = .step ∧ m.Strays) := by
  cases request
  case step =>
    by_cases hwaiting : m.runState = .waiting
    · rw [parked_serve_step_iff hparked hwaiting, and_iff_right rfl]
    · exact iff_of_true (parked_serve_step hwaiting) fun h => hwaiting h.2.1
  case setKey k down =>
    exact iff_of_true hparked fun h => nomatch h.1
  case deliverKey k =>
    have hdelivered : (m.serve (.deliverKey k)).awaiting = none := by
      show (m.deliverKey k).2.awaiting = none
      unfold deliverKey
      split
      · assumption
      · rfl
    exact iff_of_true (parked_of_awaiting hdelivered) fun h => nomatch h.1
  all_goals cases hplayed

/-! ## Runs of requests -/

/-- A run that never steps a machine that strays leaves it where it should be. -/
theorem parked_serveAll {calls : List Request} (hplayed : ∀ call ∈ calls, call.isPlayed = true)
    (hfree : m.awaiting = none)
    (hsteps : ∀ earlier, earlier ++ [.step] <+: calls → ¬(m.serveAll earlier).Strays) :
    (m.serveAll calls).Parked := by
  induction calls using List.reverseRecOn with
  | nil => exact parked_of_awaiting hfree
  | append_singleton calls call ih =>
    have hparked := ih (fun c hc => hplayed c (List.mem_append_left _ hc))
      fun earlier h => hsteps earlier (h.trans (List.prefix_append calls [call]))
    rw [serveAll_concat,
      parked_serve_iff (hplayed call (List.mem_append_right _ (List.mem_singleton_self _))) hparked]
    rintro ⟨rfl, hstrays⟩
    exact hsteps calls (List.prefix_refl _) hstrays

/-- A key that is handed to a machine which waits where it should completes the instruction there. -/
theorem completedBy_of_parked (hparked : m.Parked) (hwaiting : m.runState = .waiting) (k : UInt8) :
    m.CompletedBy k := by
  obtain ⟨-, x, hx⟩ := runState_eq_waiting_iff.mp hwaiting
  obtain ⟨hread, hoperand⟩ := operation?_of_readKeyWord (hparked x hwaiting hx)
  have hdelivered : m.deliverKey k = (true, { m with
      awaiting := none, v := m.v.set x (UInt8.ofNat (keyNumber k).val), pc := m.pc + 2 }) := by
    rw [deliverKey, hx]
  rw [CompletedBy, hdelivered]
  exact ⟨rfl, fun keys hkey =>
    step_of_readKey_pressed (m := { m with keys, awaiting := none }) hread hoperand hkey⟩

/-- A machine that did not wait at first waits where it should through a whole run exactly if it is
never stepped while it strays. Wherever it waits so, a key that is handed to it completes the
instruction it stands on. -/
theorem parked_throughout_iff (m : Machine) (calls : List Request)
    (hplayed : ∀ call ∈ calls, call.isPlayed = true) (hfree : m.awaiting = none) :
    ((∀ earlier, earlier <+: calls → (m.serveAll earlier).Parked) ↔
      ∀ earlier, earlier ++ [.step] <+: calls → ¬(m.serveAll earlier).Strays) ∧
    ∀ earlier, earlier <+: calls → (m.serveAll earlier).Parked →
      (m.serveAll earlier).runState = .waiting → ∀ k, (m.serveAll earlier).CompletedBy k := by
  refine ⟨⟨fun hparked earlier hearlier => ?_, fun hsteps earlier hearlier => ?_⟩,
    fun earlier _ => completedBy_of_parked⟩
  · have hbefore := hparked earlier ((List.prefix_append earlier [.step]).trans hearlier)
    have hafter := hparked _ hearlier
    rw [serveAll_concat, parked_serve_iff rfl hbefore] at hafter
    exact fun hstrays => hafter ⟨rfl, hstrays⟩
  · exact parked_serveAll (fun call hcall => hplayed call (hearlier.subset hcall)) hfree
      fun before hbefore => hsteps before (hbefore.trans hearlier)

/-- A run with every kind of request, in which the key is handed over before it goes down. -/
theorem parked_throughout_of_delivery :
    let m : Machine := { ram := ({} : Ram).writeAll 0x200 [0xF1, 0x0A, 0x62, 0x07] }
    let calls : List Request := [.step, .step, .deliverKey 3, .setKey 3 true, .step]
    let now := m.serveAll [.step, .step]
    (∀ call ∈ calls, call.isPlayed = true) ∧ m.awaiting = none ∧
      (∀ earlier, earlier <+: calls → (m.serveAll earlier).Parked) ∧
      now.runState = .waiting ∧ now.CompletedBy 3 := by
  intro m calls now
  have hplayed : ∀ call ∈ calls, call.isPlayed = true := by decide
  have hnowhere : ∀ earlier ∈ calls.inits, ¬((m.serveAll earlier).runState = .waiting ∧
      (m.serveAll earlier).pressedKey ≠ none) := by decide +kernel
  obtain ⟨hiff, hdeliver⟩ := parked_throughout_iff m calls hplayed rfl
  have hparked := hiff.mpr fun earlier hearlier hstrays =>
    hnowhere earlier
      ((List.mem_inits _ _).mpr ((List.prefix_append earlier [.step]).trans hearlier))
      ⟨hstrays.1, hstrays.2.1⟩
  have hearlier : [.step, .step] <+: calls := ⟨_, rfl⟩
  have hwaiting : now.runState = .waiting := by decide +kernel
  exact ⟨hplayed, rfl, hparked, hwaiting, hdeliver _ hearlier (hparked _ hearlier) hwaiting 3⟩

/-- A key that goes down during a wait is taken by the next step, and the wait goes on behind the
instruction. -/
theorem serveAll_press_step (hword : m.currentWord = readKeyWord x) (hkeys : m.pressedKey = none)
    {k : UInt8} {down : Fin 16} (hpress : (m.setKey k true).pressedKey = some down) :
    m.serveAll [.step, .setKey k true, .step] =
      { (m.setKey k true).setRegister x (UInt8.ofNat down.val) with
        awaiting := some x
        pc := m.pc + 2 } := by
  obtain ⟨hread, hx⟩ := operation?_of_readKeyWord hword
  show ((m.serve .step).setKey k true).serve .step = _
  rw [serve_step_of_ok (step_of_readKey hread hkeys), hx]
  exact serve_step_of_ok (step_of_readKey_pressed
    (m := { m.setKey k true with awaiting := some x }) hread hx hpress)

/-- A key goes down while the first instruction waits for it, and that instruction takes it in a
step. The machine still waits for register 1 then, but on an instruction that waits for nothing,
and another key that is handed to it skips that instruction. -/
theorem parked_not_after_step :
    let program : List UInt8 := [0xF1, 0x0A, 0x62, 0x07]
    let m : Machine := { ofSeed 0 with ram := (ofSeed 0).ram.overlay programStart program }
    let now := m.serveAll [.step, .setKey 3 true, .step]
    (ofSeed 0).loadProgram program = .ok m ∧
      now.runState = .waiting ∧ now.awaiting = some 1 ∧ now.register 1 = 3 ∧
      now.pc = 0x202 ∧ now.currentWord = 0x6207 ∧ readKeyWord 1 = 0xF10A ∧
      (now.deliverKey 5).1 = true ∧ (now.deliverKey 5).2.pc = 0x204 ∧
      (now.deliverKey 5).2.register 2 = 0 := by
  intro program m now
  have hloaded : (ofSeed 0).loadProgram program = .ok m := loadProgram_of_fits _ (by decide)
  have hbyte : ∀ {i : Nat} (hi : i < program.length),
      m.ram.read (UInt16.ofNat (programStart + i)) = program[i] :=
    (ofSeed 0).ram.read_overlay (by decide)
  have hfirst : m.currentWord = readKeyWord 1 :=
    congr (congrArg joinBytes (hbyte (i := 0) (by decide))) (hbyte (i := 1) (by decide))
  have hsecond : m.ram.word 0x202 = 0x6207 :=
    congr (congrArg joinBytes (hbyte (i := 2) (by decide))) (hbyte (i := 3) (by decide))
  have hdown : (m.setKey 3 true).pressedKey = some 3 := by decide
  have hnow : now = _ := serveAll_press_step hfirst (by decide) hdown
  rw [hnow]
  exact ⟨hloaded, rfl, rfl, rfl, rfl, hsecond, rfl, rfl, rfl, rfl⟩

end Machine
end ChipEight
