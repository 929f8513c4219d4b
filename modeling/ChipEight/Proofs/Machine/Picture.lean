import ChipEight.Proofs.Machine.Effects

/-!
# What a step does to the picture and to a wait

The picture is the screen and its colours. The operations that change the screen ask for it to be
drawn, all others leave it as it is, and none chooses colours. The register that waits for a key
belongs to one operation.
-/

namespace ChipEight
namespace Machine

/-! ## Operations -/

/-- What every operation keeps: the colours; the screen, unless it asks for it to be drawn; and the
register that waits for a key, unless it is the operation that waits. -/
structure Keeps (operation : Operation) (m next : Machine) : Prop where
  palette : next.palette = m.palette
  screen : next.redraw = true ∨ next.redraw = m.redraw ∧ next.screen = m.screen
  awaiting : operation ≠ .readKey → next.awaiting = m.awaiting

variable {operation : Operation}

theorem Touches.keeps {o : Operands} {m next : Machine} (h : Touches operation o m next) :
    Keeps operation m next := by
  refine ⟨h.palette, ?_, h.awaiting⟩
  cases hdraws : operation.draws with
  | true => exact .inl (h.drawn hdraws)
  | false => exact .inr (h.undrawn hdraws).symm

/-! ## Where a machine stands -/

theorem runState_eq_running_iff {m : Machine} :
    m.runState = .running ↔ m.running = true ∧ m.awaiting = none := by
  unfold runState
  cases m.running <;> cases m.awaiting <;> simp

theorem runState_eq_waiting_iff {m : Machine} :
    m.runState = .waiting ↔ m.running = true ∧ ∃ x, m.awaiting = some x := by
  unfold runState
  cases m.running <;> cases m.awaiting <;> simp

/-! ## Steps -/

/-- What a step keeps that does not fail. -/
theorem keeps_of_step {m next : Machine} {advance : Advance}
    (hstep : m.step = .ok (advance, next)) :
    ∃ operation, m.operation? = some operation ∧ Keeps operation m next := by
  obtain ⟨operation, hoperation, htouches⟩ := touches_of_step hstep
  exact ⟨operation, hoperation, htouches.keeps⟩

/-- Without a key down, the instruction that waits for one does nothing but wait. -/
theorem step_of_readKey {m : Machine} (h : m.operation? = some .readKey)
    (hkeys : m.pressedKey = none) :
    m.step = .ok (.stay, { m with awaiting := some m.operands.x }) := by
  refine step_of_execute_eq_stay ((execute_of_operation? h).trans ?_)
  rw [perform, hkeys]

/-- A step after which a machine waits that did not wait before. -/
theorem readKey_of_step {m next : Machine} {advance : Advance}
    (hstep : m.step = .ok (advance, next)) (hbefore : m.awaiting = none)
    (hafter : next.awaiting ≠ none) :
    m.operation? = some .readKey ∧ next = { m with awaiting := some m.operands.x } := by
  obtain ⟨operation, hoperation, hkeeps⟩ := keeps_of_step hstep
  have hread : operation = .readKey := Decidable.byContradiction fun hother =>
    hafter ((hkeeps.awaiting hother).trans hbefore)
  subst hread
  refine ⟨hoperation, ?_⟩
  cases hkeys : m.pressedKey with
  | none =>
    rw [step_of_readKey hoperation hkeys] at hstep
    cases hstep
    rfl
  | some k =>
    have hexecute := execute_of_operation? hoperation
    rw [perform, hkeys] at hexecute
    rw [step_of_execute_eq_ok hexecute] at hstep
    cases hstep
    exact absurd hbefore hafter

end Machine
end ChipEight
