import Mathlib.Control.Monad.Basic
import ChipEight.Proofs.Machine.CallStack
import ChipEight.Proofs.Machine.Effects
import ChipEight.Proofs.Machine.Unread

/-!
# Later dialects run earlier programs

Each dialect has all instructions of the one before, and an instruction does the same in every
dialect that has it. So a program that never meets an unknown instruction runs alike in all later
dialects, also if it writes over itself.
-/

namespace ChipEight

/-- A word that is an instruction of a dialect is the same instruction of every later one. -/
theorem Form.filter_find?_of_le {w : UInt16} {a b : Dialect} (hab : a ≤ b)
    (hknown : (Form.find? w).filter (fun f => f.dialect ≤ a) ≠ none) :
    (Form.find? w).filter (fun f => f.dialect ≤ b) =
      (Form.find? w).filter fun f => f.dialect ≤ a := by
  obtain ⟨form, hform⟩ := Option.ne_none_iff_exists'.mp hknown
  obtain ⟨hfind, hle⟩ := Option.filter_eq_some_iff.mp hform
  rw [hform]
  refine Option.filter_eq_some_iff.mpr ⟨hfind, ?_⟩
  exact decide_eq_true (Dialect.le_trans (of_decide_eq_true hle) hab)

namespace Machine

/-- The machine with another dialect. -/
def speaking (m : Machine) (dialect : Dialect) : Machine := { m with dialect }

/-- The step of a machine meets an unknown instruction. -/
def MeetsUnknown (m : Machine) : Prop := ∃ word pc, m.step = .error (.invalidInstruction word pc)

variable {m : Machine} {a b : Dialect}

theorem meetsUnknown_iff : m.MeetsUnknown ↔ m.operation? = none := by
  constructor
  · rintro ⟨word, pc, hstep⟩
    have heffect := m.step_effect
    rw [hstep] at heffect
    cases heffect with
    | unknown h => exact h
  · intro h
    exact ⟨m.currentWord, m.pc,
      step_of_execute_eq_error (execute_of_operation?_eq_none h)⟩

/-! ## One step -/

theorem recast_false (m : Machine) (dialect : Dialect) :
    m.recast dialect false = m.speaking dialect := by
  rw [recast, Bool.or_false, speaking]

/-- A known instruction has the same answer in every later dialect. -/
theorem step_speaking (hle : m.dialect ≤ b) (hknown : ¬ m.MeetsUnknown) :
    (m.speaking b).step = m.step.map fun (advance, next) => (advance, next.speaking b) := by
  have hform : (Form.find? m.currentWord).filter (fun f => f.dialect ≤ m.dialect) ≠ none :=
    fun hnone => hknown (meetsUnknown_iff.mpr (Option.map_eq_none_iff.mpr hnone))
  rw [← recast_false, m.step_recast b false (Form.filter_find?_of_le hle hform)]
  cases m.step with
  | error => rfl
  | ok result => exact congrArg (fun n => Except.ok (result.1, n)) (result.2.recast_false b)

theorem serve_step_speaking (hle : m.dialect ≤ b) (hknown : ¬ m.MeetsUnknown) :
    (m.speaking b).serve .step = (m.serve .step).speaking b := by
  unfold serve
  rw [step_speaking hle hknown]
  cases m.step <;> rfl

theorem dialect_serve_step (m : Machine) : (m.serve .step).dialect = m.dialect := by
  cases hstep : m.step with
  | error fault => rw [serve_step_of_error hstep]
  | ok result => rw [serve_step_of_ok hstep, dialect_of_step hstep]

/-! ## Runs -/

theorem dialect_afterSteps (m : Machine) (n : Nat) : (m.afterSteps n).dialect = m.dialect := by
  induction n with
  | zero => rfl
  | succ n ih => rw [afterSteps_succ, dialect_serve_step, ih]

theorem afterSteps_speaking (hab : a ≤ b) (n : Nat)
    (hknown : ∀ k < n, ¬ ((m.speaking a).afterSteps k).MeetsUnknown) :
    (m.speaking b).afterSteps n = ((m.speaking a).afterSteps n).speaking b := by
  induction n with
  | zero => rfl
  | succ n ih =>
    have hle : ((m.speaking a).afterSteps n).dialect ≤ b := by
      rw [dialect_afterSteps]
      exact hab
    rw [afterSteps_succ, afterSteps_succ, ih fun k hk => hknown k (Nat.lt_succ_of_lt hk)]
    exact serve_step_speaking hle (hknown n n.lt_succ_self)

/-- A run that never meets an unknown instruction is the same run in every later dialect: each step
has the same answer, an advance or a fault, and the machines differ in nothing but the dialect. -/
theorem run_of_later_dialect (m : Machine) (hab : a ≤ b) (n : Nat)
    (hknown : ∀ k < n, ¬ ((m.speaking a).afterSteps k).MeetsUnknown) :
    (∀ k < n, ((m.speaking b).afterSteps k).step =
      ((m.speaking a).afterSteps k).step.map fun (advance, next) => (advance, next.speaking b)) ∧
    (m.speaking b).afterSteps n = ((m.speaking a).afterSteps n).speaking b := by
  refine ⟨fun k hk => ?_, afterSteps_speaking hab n hknown⟩
  have hle : ((m.speaking a).afterSteps k).dialect ≤ b := by
    rw [dialect_afterSteps]
    exact hab
  rw [afterSteps_speaking hab k fun j hj => hknown j (Nat.lt_trans hj hk)]
  exact step_speaking hle (hknown k hk)

/-- A program that turns to the larger screen, writes a return over its own last instruction, and
finds no return address. -/
theorem run_of_later_dialect_overwritten :
    let m : Machine := {
      ram := ({} : Ram).writeAll 0x200
        [0x00, 0xFF, 0x60, 0x00, 0x61, 0xEE, 0xA2, 0x0A, 0xF2, 0x55, 0x12, 0x00] }
    Dialect.superChip ≤ .xoChip ∧
      (∀ k < 7, ¬ ((m.speaking .superChip).afterSteps k).MeetsUnknown) ∧
      ((m.speaking .superChip).afterSteps 6).step = .error (.stackUnderflow 0x20A) ∧
      ((m.speaking .xoChip).afterSteps 6).step = .error (.stackUnderflow 0x20A) ∧
      (m.speaking .xoChip).afterSteps 7 =
        ((m.speaking .superChip).afterSteps 7).speaking .xoChip := by
  intro m
  have hle : Dialect.superChip ≤ .xoChip := by decide
  have hoperations : ∀ k < 7, ((m.speaking .superChip).afterSteps k).operation? ≠ none := by
    decide +kernel
  have hknown : ∀ k < 7, ¬ ((m.speaking .superChip).afterSteps k).MeetsUnknown :=
    fun k hk hmeets => hoperations k hk (meetsUnknown_iff.mp hmeets)
  have hfault : ((m.speaking .superChip).afterSteps 6).step = .error (.stackUnderflow 0x20A) :=
    (step_eq_stackUnderflow_iff _ _).mpr (by decide +kernel)
  obtain ⟨hanswers, hlast⟩ := run_of_later_dialect m hle 7 hknown
  refine ⟨hle, hknown, hfault, ?_, hlast⟩
  rw [hanswers 6 (by decide), hfault]
  rfl

end Machine
end ChipEight
