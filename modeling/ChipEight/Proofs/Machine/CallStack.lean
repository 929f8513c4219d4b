import ChipEight.Proofs.Bare.Runs
import ChipEight.Proofs.Machine.Effects

/-!
# Calls and returns

A call puts the way back on the stack, and as long as the stack stays deeper than it was before the
call, nothing touches that place or the ones below it. So the return that ends the call finds the
way back, whatever was called, jumped to or written over in between.
-/

namespace ChipEight
namespace Machine

/-! ## One step -/

/-- A call fails if the stack is full, and nothing else overflows it. -/
theorem step_eq_stackOverflow_iff (m : Machine) (pc : UInt16) :
    m.step = .error (.stackOverflow pc) ↔
      m.operation? = some .call ∧ m.depth.val = 16 ∧ pc = m.pc := by
  have heffect := m.step_effect
  constructor
  · intro hstep
    rw [hstep] at heffect
    cases heffect with
    | overflow h hfull => exact ⟨h, hfull, rfl⟩
  · rintro ⟨h, hfull, rfl⟩
    have hroom : ¬ m.depth.val < 16 := by omega
    refine step_of_execute_eq_error ?_
    rw [execute_of_operation? h, perform, dif_neg hroom]

/-- A return fails if the stack is empty, and nothing else underflows it. -/
theorem step_eq_stackUnderflow_iff (m : Machine) (pc : UInt16) :
    m.step = .error (.stackUnderflow pc) ↔
      m.operation? = some .ret ∧ m.depth.val = 0 ∧ pc = m.pc := by
  have heffect := m.step_effect
  constructor
  · intro hstep
    rw [hstep] at heffect
    cases heffect with
    | underflow h hempty => exact ⟨h, hempty, rfl⟩
  · rintro ⟨h, hempty, rfl⟩
    refine step_of_execute_eq_error ?_
    rw [execute_of_operation? h, perform, dif_pos hempty]

/-- What is neither a call nor a return leaves the stack alone. -/
theorem stack_of_step {m next : Machine} {advance : Advance} (h : m.step = .ok (advance, next))
    (hcall : m.operation? ≠ some .call) (hret : m.operation? ≠ some .ret) :
    next.stack = m.stack ∧ next.depth = m.depth := by
  have heffect := m.step_effect
  rw [h] at heffect
  cases heffect with
  | call hop => exact absurd hop hcall
  | ret hop => exact absurd hop hret
  | exit => exact ⟨rfl, rfl⟩
  | other _ _ _ _ _ _ _ hframe => exact ⟨hframe.stack, hframe.depth⟩

/-! ## The frame of a call -/

/-- A later machine still has the return addresses from before a call, and above them the way back
from the call. -/
structure KeepsFrame (call later : Machine) : Prop where
  below : ∀ i : Fin 16, i.val < call.depth.val → later.stack.get i = call.stack.get i
  wayBack : later.stack[call.depth.val]? = some (call.pc + 2)

/-- A call that succeeds sets up its frame. -/
theorem keepsFrame_serve_step {m next : Machine} {advance : Advance}
    (h : m.operation? = some .call) (hstep : m.step = .ok (advance, next)) : KeepsFrame m next := by
  have heffect := m.step_effect
  rw [hstep] at heffect
  cases heffect with
  | call _ hroom =>
    constructor
    · intro i hi
      exact Vector.getElem_set_ne hroom i.isLt (Nat.ne_of_gt hi)
    · show (m.stack.set m.depth.val (m.pc + 2))[m.depth.val]? = _
      rw [Vector.getElem?_eq_getElem hroom, Vector.getElem_set_self]
  | ret hop => exact nomatch h.symm.trans hop
  | exit hop => exact nomatch h.symm.trans hop
  | other operation hop hcall => exact absurd (Option.some.inj (hop.symm.trans h)) hcall

/-- While the stack is deeper than before the call, a step keeps the frame, also the step of the
return that leaves it. -/
theorem KeepsFrame.step {call m : Machine} (h : KeepsFrame call m)
    (hdepth : call.depth.val < m.depth.val) : KeepsFrame call (m.serve .step) := by
  have heffect := m.step_effect
  generalize hstep : m.step = result at heffect
  cases heffect with
  | unknown | overflow | underflow =>
    rw [serve_step_of_error hstep]
    exact h
  | call _ hroom =>
    rw [serve_step_of_ok hstep]
    -- A nested call writes above the frame.
    constructor
    · intro i hi
      exact (Vector.getElem_set_ne hroom i.isLt (by omega)).trans (h.below i hi)
    · refine Eq.trans ?_ h.wayBack
      exact Vector.getElem?_set_ne hroom (by omega)
  | ret | exit =>
    rw [serve_step_of_ok hstep]
    exact ⟨h.below, h.wayBack⟩
  | other _ _ _ _ _ _ _ hframe =>
    rw [serve_step_of_ok hstep]
    exact ⟨fun i hi => hframe.stack ▸ h.below i hi, hframe.stack ▸ h.wayBack⟩

/-- Only the return of a call brings the stack back to where it was before the call, and it goes
behind the call. -/
theorem KeepsFrame.leave {call m : Machine} (h : KeepsFrame call m)
    (hdepth : call.depth.val < m.depth.val)
    (hback : (m.serve .step).depth.val ≤ call.depth.val) :
    m.operation? = some .ret ∧ (m.serve .step).depth = call.depth ∧
      (m.serve .step).pc = call.pc + 2 := by
  have heffect := m.step_effect
  generalize hstep : m.step = result at heffect
  cases heffect with
  | unknown | overflow | underflow =>
    rw [serve_step_of_error hstep] at hback
    omega
  | call =>
    rw [serve_step_of_ok hstep] at hback
    simp only [Fin.val_succ] at hback
    omega
  | exit =>
    rw [serve_step_of_ok hstep] at hback
    exact absurd hback (Nat.not_le.mpr hdepth)
  | other _ _ _ _ _ _ _ hframe =>
    rw [serve_step_of_ok hstep, hframe.depth] at hback
    omega
  | ret hop top htop =>
    rw [serve_step_of_ok hstep] at hback ⊢
    simp only [Fin.val_castSucc] at hback
    have htop' : top.val = call.depth.val := by omega
    refine ⟨hop, Fin.ext htop', ?_⟩
    have hway := h.wayBack
    rw [← htop', Vector.getElem?_eq_getElem top.isLt] at hway
    exact Option.some.inj hway

/-! ## Runs -/

/-- Along a run that begins with a call and stays deeper than before it, the frame is kept. -/
theorem keepsFrame_afterSteps {m next : Machine} {advance : Advance}
    (h : m.operation? = some .call) (hstep : m.step = .ok (advance, next)) (n : Nat)
    (hdeep : ∀ k, 0 < k → k ≤ n → m.depth.val < (m.afterSteps k).depth.val) :
    KeepsFrame m (m.afterSteps (n + 1)) := by
  induction n with
  | zero =>
    rw [afterSteps_succ]
    show KeepsFrame m (m.serve .step)
    rw [serve_step_of_ok hstep]
    exact keepsFrame_serve_step h hstep
  | succ n ih =>
    have hframe := ih fun k hk hle => hdeep k hk (Nat.le_succ_of_le hle)
    rw [afterSteps_succ]
    exact hframe.step (hdeep (n + 1) n.succ_pos (Nat.le_refl _))

/-- Bare storage, whose depth is any number, makes the same run, and its depth never exceeds the
size of the stack. -/
theorem depth_bare_afterSteps (m : Machine) (n : Nat) :
    ∃ s, m.bare.serveAll (List.replicate n .step) = some s ∧
      s.depth = (m.afterSteps n).depth.val ∧ s.depth ≤ 16 :=
  ⟨_, m.serveAll_bare (List.replicate n .step), rfl, (m.afterSteps n).wellFormed_bare.depth⟩

/-- Discipline of the stack, for any machine and any number of steps. Once a call has succeeded, and
as long as the stack stays deeper than before it, the older return addresses and the way back keep
their values; if the next step ends this, it is a return, and it goes behind the call. The depth
never exceeds sixteen, not even where it is any number. A call overflows exactly a full stack, a
return underflows exactly an empty one, and no other instruction changes the stack or its depth. -/
theorem calls_return (m : Machine) :
    (∀ advance next, m.operation? = some .call → m.step = .ok (advance, next) → ∀ n, 0 < n →
      (∀ k, 0 < k → k ≤ n → m.depth.val < (m.afterSteps k).depth.val) →
      KeepsFrame m (m.afterSteps n) ∧
      ((m.afterSteps (n + 1)).depth.val ≤ m.depth.val →
        (m.afterSteps n).operation? = some .ret ∧
        (m.afterSteps (n + 1)).depth = m.depth ∧
        (m.afterSteps (n + 1)).pc = m.pc + 2)) ∧
    (∀ n, ∃ s, m.bare.serveAll (List.replicate n .step) = some s ∧
      s.depth = (m.afterSteps n).depth.val ∧ s.depth ≤ 16) ∧
    (∀ pc, m.step = .error (.stackOverflow pc) ↔
      m.operation? = some .call ∧ m.depth.val = 16 ∧ pc = m.pc) ∧
    (∀ pc, m.step = .error (.stackUnderflow pc) ↔
      m.operation? = some .ret ∧ m.depth.val = 0 ∧ pc = m.pc) ∧
    (∀ advance next, m.step = .ok (advance, next) →
      m.operation? ≠ some .call → m.operation? ≠ some .ret →
      next.stack = m.stack ∧ next.depth = m.depth) := by
  refine ⟨?_, m.depth_bare_afterSteps, m.step_eq_stackOverflow_iff, m.step_eq_stackUnderflow_iff,
    fun _ _ => stack_of_step⟩
  intro advance next hcall hstep n hn hdeep
  obtain ⟨n, rfl⟩ := Nat.exists_eq_succ_of_ne_zero (Nat.ne_of_gt hn)
  have hframe := keepsFrame_afterSteps hcall hstep n
    fun k hk hle => hdeep k hk (Nat.le_succ_of_le hle)
  refine ⟨hframe, ?_⟩
  rw [afterSteps_succ m (n + 1)]
  exact hframe.leave (hdeep (n + 1) n.succ_pos (Nat.le_refl _))

/-- A call with another call inside it, on a stack that holds a return address already. -/
theorem calls_return_nested :
    let m : Machine := {
      ram := ({} : Ram).writeAll 0x200 [0x22, 0x04, 0, 0, 0x22, 0x08, 0x00, 0xEE, 0x00, 0xEE]
      stack := Vector.replicate 16 0x345
      depth := 1 }
    m.operation? = some .call ∧ (∃ advance next, m.step = .ok (advance, next)) ∧
      (∀ k, 0 < k → k ≤ 3 → 1 < (m.afterSteps k).depth.val) ∧
      KeepsFrame m (m.afterSteps 3) ∧ (m.afterSteps 4).depth = 1 ∧
      (m.afterSteps 4).pc = 0x202 := by
  intro m
  have hcall : m.operation? = some .call := by decide +kernel
  have hok : m.step.isOk = true := by decide +kernel
  have hdeep : ∀ k ≤ 3, 0 < k → 1 < (m.afterSteps k).depth.val := by decide +kernel
  have hback : (m.afterSteps 4).depth.val ≤ 1 := by decide +kernel
  have hrun : ∀ k, 0 < k → k ≤ 3 → 1 < (m.afterSteps k).depth.val :=
    fun k hk hle => hdeep k hle hk
  obtain ⟨⟨advance, next⟩, hstep⟩ : ∃ result, m.step = .ok result := by
    cases h : m.step with
    | error fault => rw [h] at hok; cases hok
    | ok result => exact ⟨result, rfl⟩
  obtain ⟨hframe, hleave⟩ := (calls_return m).1 advance next hcall hstep 3 (by decide) hrun
  obtain ⟨-, hdepth, hpc⟩ := hleave hback
  exact ⟨hcall, ⟨advance, next, hstep⟩, hrun, hframe, hdepth, hpc⟩

end Machine
end ChipEight
