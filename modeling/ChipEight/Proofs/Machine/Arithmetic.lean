import ChipEight.Proofs.Machine.Footprint

/-!
# The rule for VF

An arithmetic or logic word reads its operands, stores the result and then the flag. So the flag
stands in VF afterwards even where the result was to go there, and the operands are those from
before the word even where VF is one of them: `flag_rule`.
-/

namespace ChipEight
namespace Machine

/-! ## Operands -/

/-- What the register named by the second digit of a word holds. -/
def valueX (m : Machine) (w : UInt16) : Nat := (m.register (digitAt w 2)).toNat

/-- What the register named by the third digit of a word holds. -/
def valueY (m : Machine) (w : UInt16) : Nat := (m.register (digitAt w 1)).toNat

/-- What a shift shifts. -/
def shifted (m : Machine) (w : UInt16) : Nat :=
  if m.switches.shiftInPlace then m.valueX w else m.valueY w

/-! ## Words -/

/-- An arithmetic word, with its result before this is cut to a byte, and its flag. -/
inductive Computes (m : Machine) (w : UInt16) : Int → Bool → Prop
  /-- The flag of a sum is the carry. -/
  | addByte (hw : Shape.Covers ⟨7, .free, .free, .free⟩ w) :
    Computes m w (m.valueX w + (w.toNat % 256 : Nat)) (256 ≤ m.valueX w + w.toNat % 256)
  | addRegister (hw : Shape.Covers ⟨8, .free, .free, 4⟩ w) :
    Computes m w (m.valueX w + m.valueY w) (256 ≤ m.valueX w + m.valueY w)
  /-- The flag of a difference tells that nothing was borrowed. -/
  | subtract (hw : Shape.Covers ⟨8, .free, .free, 5⟩ w) :
    Computes m w (m.valueX w - m.valueY w) (m.valueY w ≤ m.valueX w)
  | subtractFrom (hw : Shape.Covers ⟨8, .free, .free, 7⟩ w) :
    Computes m w (m.valueY w - m.valueX w) (m.valueX w ≤ m.valueY w)
  /-- The flag of a shift is the bit that was shifted out. -/
  | shiftRight (hw : Shape.Covers ⟨8, .free, .free, 6⟩ w) :
    Computes m w (m.shifted w / 2 : Nat) ((m.shifted w).testBit 0)
  | shiftLeft (hw : Shape.Covers ⟨8, .free, .free, 0xE⟩ w) :
    Computes m w (2 * m.shifted w : Nat) ((m.shifted w).testBit 7)

/-- A logic word, with its result. -/
inductive Combines (m : Machine) (w : UInt16) : Nat → Prop
  | or (hw : Shape.Covers ⟨8, .free, .free, 1⟩ w) : Combines m w (m.valueX w ||| m.valueY w)
  | and (hw : Shape.Covers ⟨8, .free, .free, 2⟩ w) : Combines m w (m.valueX w &&& m.valueY w)
  | xor (hw : Shape.Covers ⟨8, .free, .free, 3⟩ w) : Combines m w (m.valueX w ^^^ m.valueY w)

/-! ## What is stored -/

/-- A result is stored in a register and a flag in VF, where the flag wins; nothing else changes. -/
structure Sets (m : Machine) (x : Fin 16) (result : Int) (flag : Bool) (next : Machine) : Prop where
  registers : next = { m with v := next.v }
  flag : next.register 15 = if flag then 1 else 0
  result : x ≠ 15 → (next.register x).toNat = result % 256
  others : ∀ r, r ≠ x → r ≠ 15 → next.register r = m.register r

/-- A result is stored in a register and, under a switch, zero in VF, where the zero wins; nothing
else changes. -/
structure SetsLogic (m : Machine) (x : Fin 16) (result : Nat) (next : Machine) : Prop where
  registers : next = { m with v := next.v }
  cleared : m.switches.clearFlag = true → next.register 15 = 0
  result : (m.switches.clearFlag = true → x ≠ 15) → (next.register x).toNat = result
  others : ∀ r, r ≠ x → (m.switches.clearFlag = true → r ≠ 15) → next.register r = m.register r

variable {m : Machine} {w : UInt16}

theorem sets_setWithFlag (x : Fin 16) {b : UInt8} {result : Int} (flag : Bool)
    (hb : b.toNat = result % 256) : Sets m x result flag (m.setWithFlag x b flag) := by
  constructor
  case registers => rfl
  case flag => rw [setWithFlag, flagRegister_eq, register_setRegister, if_pos rfl]
  case result =>
    intro hx
    rw [setWithFlag, flagRegister_eq, register_setRegister, if_neg hx, register_setRegister, if_pos rfl, hb]
  case others =>
    intro r hr hflag
    rw [setWithFlag, flagRegister_eq, register_setRegister, if_neg hflag, register_setRegister, if_neg hr]

theorem setsLogic_setLogic (x : Fin 16) {b : UInt8} {result : Nat} (hb : b.toNat = result) :
    SetsLogic m x result (m.setLogic x b) := by
  have hswitches : (m.setRegister x b).switches = m.switches := rfl
  unfold setLogic
  dsimp only
  rw [hswitches, flagRegister_eq]
  by_cases hclear : m.switches.clearFlag = true
  · rw [if_pos hclear]
    constructor
    case registers => rfl
    case cleared => exact fun _ => by rw [register_setRegister, if_pos rfl]
    case result =>
      intro hx
      rw [register_setRegister, if_neg (hx hclear), register_setRegister, if_pos rfl, hb]
    case others =>
      intro r hr hflag
      rw [register_setRegister, if_neg (hflag hclear), register_setRegister, if_neg hr]
  · rw [if_neg hclear]
    constructor
    case registers => rfl
    case cleared => exact fun h => absurd h hclear
    case result => exact fun _ => by rw [register_setRegister, if_pos rfl, hb]
    case others => exact fun r hr _ => by rw [register_setRegister, if_neg hr]

/-! ## Bytes -/

theorem toNat_add_emod (a b : UInt8) : ((a + b).toNat : Int) = (a.toNat + b.toNat : Int) % 256 := by
  rw [UInt8.toNat_add]
  rfl

theorem toNat_sub_emod (a b : UInt8) : ((a - b).toNat : Int) = (a.toNat - b.toNat : Int) % 256 := by
  have ha := a.toNat_lt
  have hb := b.toNat_lt
  rw [UInt8.toNat_sub]
  omega

theorem toNat_shiftRight_one (b : UInt8) : (b >>> 1).toNat = b.toNat / 2 := by
  rw [UInt8.toNat_shiftRight]
  exact Nat.shiftRight_eq_div_pow b.toNat 1

theorem toNat_shiftLeft_one (b : UInt8) : (b <<< 1).toNat = 2 * b.toNat % 256 := by
  rw [UInt8.toNat_shiftLeft]
  show b.toNat <<< 1 % 2 ^ 8 = _
  rw [Nat.shiftLeft_eq]
  omega

/-- The highest bit of a byte. -/
theorem testBit_seven (b : UInt8) : b.toNat.testBit 7 = decide (128 ≤ b.toNat) := by
  have hb := b.toNat_lt
  rw [Nat.testBit_eq_decide_div_mod_eq, decide_eq_decide]
  omega

theorem toNat_shiftSource (m : Machine) (w : UInt16) :
    (m.shiftSource (digitAt w 2) (digitAt w 1)).toNat = m.shifted w := by
  unfold shiftSource shifted
  split <;> rfl

/-! ## The rule -/

/-- An arithmetic word never fails, and stores its result and its flag. -/
theorem exists_sets_of_computes {result : Int} {flag : Bool} (h : Computes m w result flag) :
    ∃ next, m.execute w = .ok (.next, next) ∧ Sets m (digitAt w 2) result flag next := by
  have hdialect := Dialect.chip8_le m.dialect
  cases h with
  | addByte hw =>
    have hbyte : (Operands.ofWord w).byte.toNat = w.toNat % 256 := by simp [Operands.ofWord]
    refine ⟨_, execute_of_covers .addByte (by decide) hdialect hw, ?_⟩
    rw [← hbyte]
    exact sets_setWithFlag _ _ (toNat_add_emod _ _)
  | addRegister hw =>
    refine ⟨_, execute_of_covers .addRegister (by decide) hdialect hw, ?_⟩
    exact sets_setWithFlag _ _ (toNat_add_emod _ _)
  | subtract hw =>
    refine ⟨_, execute_of_covers .subtract (by decide) hdialect hw, ?_⟩
    exact sets_setWithFlag _ _ (toNat_sub_emod _ _)
  | subtractFrom hw =>
    refine ⟨_, execute_of_covers .subtractFrom (by decide) hdialect hw, ?_⟩
    exact sets_setWithFlag _ _ (toNat_sub_emod _ _)
  | shiftRight hw =>
    refine ⟨_, execute_of_covers .shiftRight (by decide) hdialect hw, ?_⟩
    rw [← toNat_shiftSource, Nat.testBit_zero]
    refine sets_setWithFlag _ _ ?_
    have hbyte := (m.shiftSource (digitAt w 2) (digitAt w 1)).toNat_lt
    show ((m.shiftSource (digitAt w 2) (digitAt w 1) >>> 1).toNat : Int) = _
    rw [toNat_shiftRight_one]
    omega
  | shiftLeft hw =>
    refine ⟨_, execute_of_covers .shiftLeft (by decide) hdialect hw, ?_⟩
    rw [← toNat_shiftSource, testBit_seven]
    refine sets_setWithFlag _ _ ?_
    show ((m.shiftSource (digitAt w 2) (digitAt w 1) <<< 1).toNat : Int) = _
    rw [toNat_shiftLeft_one]
    rfl

/-- A logic word never fails, and stores its result and what the switch asks for. -/
theorem exists_setsLogic_of_combines {result : Nat} (h : Combines m w result) :
    ∃ next, m.execute w = .ok (.next, next) ∧ SetsLogic m (digitAt w 2) result next := by
  have hdialect := Dialect.chip8_le m.dialect
  cases h with
  | or hw =>
    refine ⟨_, execute_of_covers .orRegister (by decide) hdialect hw, ?_⟩
    exact setsLogic_setLogic _ (UInt8.toNat_or _ _)
  | and hw =>
    refine ⟨_, execute_of_covers .andRegister (by decide) hdialect hw, ?_⟩
    exact setsLogic_setLogic _ (UInt8.toNat_and _ _)
  | xor hw =>
    refine ⟨_, execute_of_covers .xorRegister (by decide) hdialect hw, ?_⟩
    exact setsLogic_setLogic _ (UInt8.toNat_xor _ _)

/-- The rule for VF, for every machine and all registers, VF among them. -/
theorem flag_rule (m : Machine) (w : UInt16) :
    (∀ result flag, Computes m w result flag →
      ∃ next, m.execute w = .ok (.next, next) ∧ Sets m (digitAt w 2) result flag next) ∧
    (∀ result, Combines m w result →
      ∃ next, m.execute w = .ok (.next, next) ∧ SetsLogic m (digitAt w 2) result next) :=
  ⟨fun _ _ => exists_sets_of_computes, fun _ => exists_setsLogic_of_combines⟩

/-- VF as both operands of a difference, as the operand of a shift in place, and as the destination
of a logic word that clears it. -/
theorem flag_rule_aliased :
    let plain : Machine := {
      v := Vector.replicate 16 3
      switches := { clearFlag := true, shiftInPlace := true } }
    let m := plain.setRegister 15 0xC1
    (∃ next, m.execute 0x8FF5 = .ok (.next, next) ∧ next.register 15 = 1) ∧
      (∃ next, m.execute 0x8F16 = .ok (.next, next) ∧ next.register 15 = 1) ∧
      (∃ next, m.execute 0x81F5 = .ok (.next, next) ∧ (next.register 1).toNat = 0x42 ∧
        next.register 15 = 0) ∧
      ∃ next, m.execute 0x8F11 = .ok (.next, next) ∧ next.register 15 = 0 ∧
        next.register 1 = 3 := by
  intro plain m
  obtain ⟨harithmetic, -⟩ := flag_rule m 0x8FF5
  obtain ⟨hshift, -⟩ := flag_rule m 0x8F16
  obtain ⟨hborrow, -⟩ := flag_rule m 0x81F5
  obtain ⟨-, hlogic⟩ := flag_rule m 0x8F11
  refine ⟨?_, ?_, ?_, ?_⟩
  · obtain ⟨next, hexecute, hsets⟩ := harithmetic _ _ (.subtract (by decide))
    exact ⟨next, hexecute, hsets.flag⟩
  · obtain ⟨next, hexecute, hsets⟩ := hshift _ _ (.shiftRight (by decide))
    have hbit : (m.shifted 0x8F16).testBit 0 = true := by decide +kernel
    exact ⟨next, hexecute, by rw [hsets.flag, if_pos hbit]⟩
  · obtain ⟨next, hexecute, hsets⟩ := hborrow _ _ (.subtract (by decide))
    have hresult : ((next.register 1).toNat : Int) = 0x42 := hsets.result (by decide)
    exact ⟨next, hexecute, by omega, hsets.flag⟩
  · obtain ⟨next, hexecute, hsets⟩ := hlogic _ (.or (by decide))
    exact ⟨next, hexecute, hsets.cleared rfl, hsets.others 1 (by decide) (by decide)⟩

end Machine
end ChipEight
