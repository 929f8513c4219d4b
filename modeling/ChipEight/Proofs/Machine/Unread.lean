import ChipEight.Machine.Step

/-!
# What rules never read

The dialect decides which words are instructions, and nothing else: no rule reads it. Nor does a
rule read whether the screen is to be drawn, though some ask for it. So a machine that differs in
these two fields only performs every operation in the same way.
-/

namespace ChipEight
namespace Machine

/-- The machine with another dialect, and with its screen to be drawn if it is or if `dirty` says
so. -/
def recast (m : Machine) (dialect : Dialect) (dirty : Bool) : Machine :=
  { m with dialect, redraw := m.redraw || dirty }

variable (m : Machine) (dialect : Dialect) (dirty : Bool)

/-- An answer with its machine recast. -/
def recastAnswer (answer : Except Fault (Advance × Machine)) : Except Fault (Advance × Machine) :=
  answer.map fun (advance, next) => (advance, next.recast dialect dirty)

/-! ## Parts of rules -/

theorem skipIf_recast (condition : Bool) :
    (m.recast dialect dirty).skipIf condition = (m.skipIf condition).recast dialect dirty := by
  cases condition <;> rfl

theorem setLogic_recast (x : Fin 16) (b : UInt8) :
    (m.recast dialect dirty).setLogic x b = (m.setLogic x b).recast dialect dirty := by
  have hswitches : ((m.recast dialect dirty).setRegister x b).switches = m.switches := rfl
  have hkept : (m.setRegister x b).switches = m.switches := rfl
  unfold setLogic
  dsimp only
  rw [hswitches, hkept]
  split <;> rfl

theorem moveIndex_recast (x : Fin 16) :
    (m.recast dialect dirty).moveIndex x = (m.moveIndex x).recast dialect dirty := by
  have hswitches : (m.recast dialect dirty).switches = m.switches := rfl
  unfold moveIndex
  rw [hswitches]
  split <;> rfl

theorem loadBelow_recast (x : Fin 16) :
    (m.recast dialect dirty).loadBelow x = (m.loadBelow x).recast dialect dirty := by
  simp only [loadBelow, recast, register]

theorem loadBetween_recast (x y : Fin 16) :
    (m.recast dialect dirty).loadBetween x y = (m.loadBetween x y).recast dialect dirty := by
  simp only [loadBetween, recast, register]

theorem recallFlags_recast (x : Fin 16) :
    (m.recast dialect dirty).recallFlags x = (m.recallFlags x).recast dialect dirty := by
  simp only [recallFlags, recast, register]

theorem call_recast (o : Operands) :
    (m.recast dialect dirty).perform o .call =
      recastAnswer dialect dirty (m.perform o .call) := by
  by_cases hroom : m.depth.val < 16
  · rw [perform, perform, dif_pos hroom]
    exact dif_pos (show (m.recast dialect dirty).depth.val < 16 from hroom)
  · rw [perform, perform, dif_neg hroom]
    exact dif_neg (show ¬ (m.recast dialect dirty).depth.val < 16 from hroom)

theorem ret_recast (o : Operands) :
    (m.recast dialect dirty).perform o .ret =
      recastAnswer dialect dirty (m.perform o .ret) := by
  by_cases hempty : m.depth.val = 0
  · rw [perform, perform, dif_pos hempty]
    exact dif_pos (show (m.recast dialect dirty).depth.val = 0 from hempty)
  · rw [perform, perform, dif_neg hempty]
    exact dif_neg (show ¬ (m.recast dialect dirty).depth.val = 0 from hempty)

/-! ## Rules, words and steps -/

theorem perform_recast (o : Operands) (operation : Operation) :
    (m.recast dialect dirty).perform o operation =
      recastAnswer dialect dirty (m.perform o operation) := by
  cases operation
  case call => exact m.call_recast dialect dirty o
  case ret => exact m.ret_recast dialect dirty o
  case skipIfByte | skipUnlessByte | skipIfRegister | skipUnlessRegister | skipIfKey |
      skipUnlessKey =>
    rw [perform, skipIf_recast]
    rfl
  case orRegister | andRegister | xorRegister =>
    rw [perform, setLogic_recast]
    rfl
  case storeRegisters =>
    have hstore : (m.recast dialect dirty).storeList (registersBelow o.x) =
        (m.storeList (registersBelow o.x)).recast dialect dirty := rfl
    rw [perform, hstore, moveIndex_recast]
    rfl
  case loadRegisters =>
    rw [perform, loadBelow_recast, moveIndex_recast]
    rfl
  case loadRange =>
    rw [perform, loadBetween_recast]
    rfl
  case loadFlags =>
    rw [perform, recallFlags_recast]
    rfl
  case readKey =>
    have hkey : (m.recast dialect dirty).pressedKey = m.pressedKey := rfl
    simp only [perform, hkey]
    cases m.pressedKey <;> rfl
  -- The other rules make the same change to both machines, or ask for the screen to be drawn.
  all_goals rfl

/-- Two dialects that read a word alike execute it alike. -/
theorem execute_recast {w : UInt16}
    (h : (Form.find? w).filter (fun f => f.dialect ≤ dialect) =
      (Form.find? w).filter fun f => f.dialect ≤ m.dialect) :
    (m.recast dialect dirty).execute w = recastAnswer dialect dirty (m.execute w) := by
  have hdialect : (m.recast dialect dirty).dialect = dialect := rfl
  unfold execute
  rw [hdialect, h]
  cases (Form.find? w).filter fun f => f.dialect ≤ m.dialect with
  | none => rfl
  | some form => exact m.perform_recast dialect dirty (Operands.ofWord w) form.operation

theorem step_recast
    (h : (Form.find? m.currentWord).filter (fun f => f.dialect ≤ dialect) =
      (Form.find? m.currentWord).filter fun f => f.dialect ≤ m.dialect) :
    (m.recast dialect dirty).step = recastAnswer dialect dirty m.step := by
  have hword : (m.recast dialect dirty).currentWord = m.currentWord := rfl
  unfold step
  rw [hword, m.execute_recast dialect dirty h]
  cases m.execute m.currentWord <;> rfl

variable {m}

/-- No step changes the dialect: it would if the dialect were set to what it is anyway. -/
theorem dialect_of_step {next : Machine} {advance : Advance}
    (hstep : m.step = .ok (advance, next)) : next.dialect = m.dialect := by
  have hself : m.recast m.dialect false = m := by
    rw [recast, Bool.or_false]
  have hanswer := m.step_recast m.dialect false rfl
  rw [hself, hstep] at hanswer
  have hnext : next = next.recast m.dialect false := congrArg Prod.snd (Except.ok.inj hanswer)
  rw [hnext]
  rfl

/-- A request for the screen to be drawn makes no difference to a step, and outlasts it. -/
theorem step_requestRedraw (m : Machine) :
    m.requestRedraw.step = m.step.map fun (advance, next) => (advance, next.requestRedraw) := by
  have hrequest : m.recast m.dialect true = m.requestRedraw := by
    rw [recast, Bool.or_true, requestRedraw]
  rw [← hrequest, m.step_recast m.dialect true rfl]
  cases hstep : m.step with
  | error => rfl
  | ok result =>
    obtain ⟨advance, next⟩ := result
    have hnext : next.recast m.dialect true = next.requestRedraw := by
      rw [recast, Bool.or_true, ← dialect_of_step hstep, requestRedraw]
    exact congrArg (fun n => Except.ok (advance, n)) hnext

end Machine
end ChipEight
