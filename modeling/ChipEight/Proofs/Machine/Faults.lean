import ChipEight.Proofs.Bare.Rules
import ChipEight.Proofs.Machine.Footprint

/-!
# The faults of execution

A word fails if it is no instruction of the dialect, if it returns from an empty stack, or if it
calls on a full one. Nothing else fails, and what fails has changed nothing before it did.
-/

namespace ChipEight
namespace Machine

/-! ## Operations -/

/-- A call and a return are the only operations that fail, each at its end of the stack. -/
theorem perform_eq_error_iff {m : Machine} {o : Operands} {operation : Operation} {fault : Fault} :
    m.perform o operation = .error fault ↔
      operation = .call ∧ m.depth.val = 16 ∧ fault = .stackOverflow m.pc ∨
      operation = .ret ∧ m.depth.val = 0 ∧ fault = .stackUnderflow m.pc := by
  by_cases hcall : operation = .call
  · subst hcall
    by_cases hroom : m.depth.val < 16
    · have hfull : m.depth.val ≠ 16 := Nat.ne_of_lt hroom
      simp [perform, hroom, hfull]
    · have hfull : m.depth.val = 16 := by omega
      simp [perform, hfull, eq_comm]
  by_cases hret : operation = .ret
  · subst hret
    by_cases hempty : m.depth.val = 0
    · simp [perform, hempty, eq_comm]
    · simp [perform, hempty]
  obtain ⟨_, _, hperform, -⟩ := m.exists_perform_touches o hcall hret
  simp [hperform, hcall, hret]

/-! ## Words -/

/-- How executing a word fails. -/
inductive Fails (w : UInt16) (m : Machine) : Fault → Prop
  /-- No row of the table covers the word. -/
  | unknown (h : ∀ f ∈ Form.table, ¬f.shape.Covers w) : Fails w m (.invalidInstruction w m.pc)
  /-- A row covers the word, but it came with a later dialect. -/
  | tooEarly (f : Form) (hf : f ∈ Form.table) (hw : f.shape.Covers w)
      (hlater : ¬f.dialect ≤ m.dialect) : Fails w m (.invalidInstruction w m.pc)
  /-- A return without a return address. -/
  | underflow (hw : w = 0x00EE) (hempty : m.depth.val = 0) : Fails w m (.stackUnderflow m.pc)
  /-- A call without a place for one more return address. -/
  | overflow (hw : Shape.Covers ⟨2, .free, .free, .free⟩ w) (hfull : m.depth.val = 16) :
    Fails w m (.stackOverflow m.pc)

variable {m : Machine} {w : UInt16} {fault : Fault}

/-- A word fails in no other way. -/
theorem fails_of_execute (h : m.execute w = .error fault) : Fails w m fault := by
  cases hform : Form.find? w with
  | none =>
    rw [execute_of_find?_eq_none hform] at h
    cases h
    exact .unknown (find?_eq_none_iff.mp hform)
  | some f =>
    by_cases hle : f.dialect ≤ m.dialect
    · rw [execute_of_le hform hle] at h
      rcases perform_eq_error_iff.mp h with ⟨hcall, hfull, rfl⟩ | ⟨hret, hempty, rfl⟩
      · exact .overflow (covers_of_operation hform hcall (by decide)) hfull
      · have hw : Shape.Covers ⟨0, 0, 0xE, 0xE⟩ w := covers_of_operation hform hret (by decide)
        exact .underflow ((Shape.covers_iff_eq rfl).mp hw) hempty
    · rw [execute_of_not_le hform hle] at h
      cases h
      obtain ⟨hf, hw⟩ := find?_eq_some_iff.mp hform
      exact .tooEarly f hf hw hle

/-- A word fails in each of these ways. -/
theorem execute_of_fails (h : Fails w m fault) : m.execute w = .error fault := by
  cases h with
  | unknown h => exact execute_of_find?_eq_none (find?_eq_none_iff.mpr h)
  | tooEarly f hf hw hlater => exact execute_of_not_le (find?_eq_some_iff.mpr ⟨hf, hw⟩) hlater
  | underflow hw hempty =>
    subst hw
    have hw : Shape.Covers ⟨0, 0, 0xE, 0xE⟩ 0x00EE := by decide
    rw [execute_of_covers .ret (by decide) (Dialect.chip8_le _) hw]
    exact perform_eq_error_iff.mpr (.inr ⟨rfl, hempty, rfl⟩)
  | overflow hw hfull =>
    rw [execute_of_covers .call (by decide) (Dialect.chip8_le _) hw]
    exact perform_eq_error_iff.mpr (.inl ⟨rfl, hfull, rfl⟩)

/-- A word fails exactly in these ways. Where it does, bare storage, which keeps whatever was done
before a failure, is as it was, and so it is after a step onto the word. -/
theorem execute_fails_iff (m : Machine) (w : UInt16) (fault : Fault) :
    (m.execute w = .error fault ↔ Fails w m fault) ∧
    (m.execute w = .error fault →
      m.bare.execute w = some (.error fault, m.bare) ∧
      (m.currentWord = w →
        m.step = .error fault ∧ m.bare.step = some (.error fault, m.bare))) := by
  refine ⟨⟨fails_of_execute, execute_of_fails⟩, fun h => ⟨?_, fun hcurrent => ?_⟩⟩
  · rw [m.execute_bare, h]
    rfl
  · have hstep : m.step = .error fault := by rw [step, hcurrent, h]
    refine ⟨hstep, ?_⟩
    rw [m.step_bare, hstep]
    rfl

/-- A call on a full stack, and a word that only a later dialect has. -/
theorem execute_fails_iff_instances :
    let m : Machine := { ram := ({} : Ram).write 0x200 0x23, depth := 16, dialect := .chip8 }
    Fails 0x2300 m (.stackOverflow 0x200) ∧ m.step = .error (.stackOverflow 0x200) ∧
      m.bare.step = some (.error (.stackOverflow 0x200), m.bare) ∧
      Fails 0x00FF m (.invalidInstruction 0x00FF 0x200) ∧
      m.bare.execute 0x00FF = some (.error (.invalidInstruction 0x00FF 0x200), m.bare) := by
  intro m
  have hcall : m.execute 0x2300 = .error (.stackOverflow 0x200) := rfl
  have hlater : m.execute 0x00FF = .error (.invalidInstruction 0x00FF 0x200) := rfl
  obtain ⟨hiff, hsame⟩ := execute_fails_iff m 0x2300 (.stackOverflow 0x200)
  obtain ⟨hiff', hsame'⟩ := execute_fails_iff m 0x00FF (.invalidInstruction 0x00FF 0x200)
  obtain ⟨hstep, hbare⟩ := (hsame hcall).2 (by decide +kernel)
  exact ⟨hiff.mp hcall, hstep, hbare, hiff'.mp hlater, (hsame' hlater).1⟩

end Machine
end ChipEight
