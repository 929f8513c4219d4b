import ChipEight.Proofs.Machine.Footprint
import ChipEight.Proofs.Machine.Requests

/-!
# What a step does to the frame of execution

The stack, its depth and the running flag belong to three operations: a call, a return and the
exit. Every other operation leaves them alone. `step_effect` says once what a step can do, so that
what holds along a run follows from its seven cases and never from the table of operations.
-/

namespace ChipEight
namespace Machine

/-! ## The instruction under the program counter -/

/-- The operation under the program counter, if the dialect has it. -/
def operation? (m : Machine) : Option Operation :=
  ((Form.find? m.currentWord).filter fun f => f.dialect ≤ m.dialect).map (·.operation)

/-- The operands under the program counter. -/
def operands (m : Machine) : Operands := Operands.ofWord m.currentWord

theorem execute_of_operation? {m : Machine} {operation : Operation}
    (h : m.operation? = some operation) :
    m.execute m.currentWord = m.perform m.operands operation := by
  obtain ⟨form, hform, rfl⟩ := Option.map_eq_some_iff.mp h
  rw [execute, hform]
  rfl

theorem execute_of_operation?_eq_none {m : Machine} (h : m.operation? = none) :
    m.execute m.currentWord = .error (.invalidInstruction m.currentWord m.pc) := by
  have hform := Option.map_eq_none_iff.mp h
  rw [execute, hform]

/-! ## The frame -/

/-- The fields that only a call, a return and the exit change. -/
structure SameFrame (m next : Machine) : Prop where
  stack : next.stack = m.stack
  depth : next.depth = m.depth
  running : next.running = m.running

/-- An operation that owns no field of the frame leaves the frame alone, and cannot fail. -/
theorem perform_sameFrame (m : Machine) (o : Operands) {operation : Operation}
    (hcall : operation ≠ .call) (hret : operation ≠ .ret) (hexit : operation ≠ .exit) :
    ∃ advance next, m.perform o operation = .ok (advance, next) ∧ SameFrame m next := by
  obtain ⟨advance, next, hperform, htouches⟩ := m.exists_perform_touches o hcall hret
  refine ⟨advance, next, hperform, htouches.stack hcall, htouches.depth hcall hret, ?_⟩
  rcases htouches.running with hsame | ⟨hexits, -⟩
  · exact hsame
  · exact absurd hexits hexit

/-! ## Steps -/

/-- What a step of a machine comes to, as far as the frame is concerned. -/
inductive Effect (m : Machine) : Except Fault (Advance × Machine) → Prop
  | unknown (h : m.operation? = none) :
    Effect m (.error (.invalidInstruction m.currentWord m.pc))
  | overflow (h : m.operation? = some .call) (hfull : m.depth.val = 16) :
    Effect m (.error (.stackOverflow m.pc))
  | underflow (h : m.operation? = some .ret) (hempty : m.depth.val = 0) :
    Effect m (.error (.stackUnderflow m.pc))
  | call (h : m.operation? = some .call) (hroom : m.depth.val < 16) :
    Effect m (.ok (.stay, { m with
      stack := m.stack.set m.depth.val (m.pc + 2)
      depth := Fin.succ ⟨m.depth.val, hroom⟩
      pc := m.operands.address }))
  | ret (h : m.operation? = some .ret) (top : Fin 16) (htop : top.val + 1 = m.depth.val) :
    Effect m (.ok (.stay, { m with depth := top.castSucc, pc := m.stack[top] }))
  | exit (h : m.operation? = some .exit) : Effect m (.ok (.stay, m.halt))
  | other (operation : Operation) (h : m.operation? = some operation)
      (hcall : operation ≠ .call) (hret : operation ≠ .ret) (hexit : operation ≠ .exit)
      (advance : Advance) (next : Machine) (hframe : SameFrame m next) :
    Effect m (.ok (advance, next))

theorem step_of_execute_eq_ok {m next : Machine} {advance : Advance}
    (h : m.execute m.currentWord = .ok (advance, next)) :
    m.step = .ok (advance, { next with pc := next.pc + advance.distance }) := by
  rw [step, h]

/-- A rule that sets the program counter itself is the whole step. -/
theorem step_of_execute_eq_stay {m next : Machine}
    (h : m.execute m.currentWord = .ok (.stay, next)) : m.step = .ok (.stay, next) := by
  have hpc : next.pc + Advance.stay.distance = next.pc := UInt16.add_zero next.pc
  rw [step_of_execute_eq_ok h, hpc]

theorem step_of_execute_eq_error {m : Machine} {fault : Fault}
    (h : m.execute m.currentWord = .error fault) : m.step = .error fault := by
  rw [step, h]

/-- A step that succeeds has performed an operation and moved on. -/
theorem exists_perform_of_step {m next : Machine} {advance : Advance}
    (h : m.step = .ok (advance, next)) :
    ∃ operation performed, m.operation? = some operation ∧
      m.perform m.operands operation = .ok (advance, performed) ∧
      next = { performed with pc := performed.pc + advance.distance } := by
  cases hoperation : m.operation? with
  | none =>
    rw [step_of_execute_eq_error (execute_of_operation?_eq_none hoperation)] at h
    cases h
  | some operation =>
    have hexecute := execute_of_operation? hoperation
    cases hperform : m.perform m.operands operation with
    | error fault =>
      rw [step_of_execute_eq_error (hexecute.trans hperform)] at h
      cases h
    | ok result =>
      rw [step_of_execute_eq_ok (hexecute.trans hperform)] at h
      cases h
      exact ⟨operation, _, rfl, hperform, rfl⟩

/-- A step touches what its operation does. -/
theorem touches_of_step {m next : Machine} {advance : Advance} (h : m.step = .ok (advance, next)) :
    ∃ operation, m.operation? = some operation ∧ Touches operation m.operands m next := by
  obtain ⟨operation, performed, hoperation, hperform, rfl⟩ := exists_perform_of_step h
  exact ⟨operation, hoperation, (perform_touches hperform).movePc _⟩

theorem step_of_call {m : Machine} (h : m.operation? = some .call) : Effect m m.step := by
  have hexecute := execute_of_operation? h
  by_cases hroom : m.depth.val < 16
  · rw [perform, dif_pos hroom] at hexecute
    rw [step_of_execute_eq_stay hexecute]
    exact .call h hroom
  · rw [perform, dif_neg hroom] at hexecute
    rw [step_of_execute_eq_error hexecute]
    exact .overflow h (by omega)

theorem step_of_ret {m : Machine} (h : m.operation? = some .ret) : Effect m m.step := by
  have hexecute := execute_of_operation? h
  by_cases hempty : m.depth.val = 0
  · rw [perform, dif_pos hempty] at hexecute
    rw [step_of_execute_eq_error hexecute]
    exact .underflow h hempty
  · rw [perform, dif_neg hempty] at hexecute
    rw [step_of_execute_eq_stay hexecute]
    exact .ret h ⟨m.depth.val - 1, by omega⟩ (Nat.sub_add_cancel (Nat.pos_of_ne_zero hempty))

/-- Every step is one of the seven. -/
theorem step_effect (m : Machine) : Effect m m.step := by
  cases h : m.operation? with
  | none =>
    rw [step_of_execute_eq_error (execute_of_operation?_eq_none h)]
    exact .unknown h
  | some operation =>
    by_cases hcall : operation = .call
    · exact step_of_call (hcall ▸ h)
    by_cases hret : operation = .ret
    · exact step_of_ret (hret ▸ h)
    by_cases hexit : operation = .exit
    · subst hexit
      rw [step_of_execute_eq_stay (execute_of_operation? h)]
      exact .exit h
    obtain ⟨advance, next, hperform, hframe⟩ := m.perform_sameFrame m.operands hcall hret hexit
    rw [step_of_execute_eq_ok ((execute_of_operation? h).trans hperform)]
    exact .other operation h hcall hret hexit advance _ ⟨hframe.stack, hframe.depth, hframe.running⟩

/-! ## Colours and fonts -/

/-- What holds of a machine and of what it may become holds of what is kept. -/
theorem orKeep_map_of {ε α : Type} {P : Machine → Prop} {m : Machine}
    {result : Except ε (α × Machine)} (hm : P m)
    (hok : ∀ a next, result = .ok (a, next) → P next) : P (m.orKeep (result.map (·.2))) := by
  cases result with
  | error failure => exact hm
  | ok result => exact hok result.1 result.2 rfl

/-- A machine has the colours and the fonts of another one. -/
structure SameLook (m next : Machine) : Prop where
  palette : next.palette = m.palette
  fonts : next.fonts = m.fonts

theorem SameLook.refl (m : Machine) : SameLook m m := ⟨rfl, rfl⟩

/-- Requests leave colours and fonts alone, except those that choose or restore them. -/
theorem sameLook_serve (m : Machine) {r : Request} (hpalette : ∀ p, r ≠ .setPalette p)
    (hfonts : ∀ f, r ≠ .setFonts f) (hrestore : ∀ bytes, r ≠ .restore bytes) :
    SameLook m (m.serve r) := by
  cases r with
  | restore bytes => exact absurd rfl (hrestore bytes)
  | setPalette p => exact absurd rfl (hpalette p)
  | setFonts f => exact absurd rfl (hfonts f)
  | step =>
    refine orKeep_map_of (.refl m) fun advance next h => ?_
    obtain ⟨_, -, htouches⟩ := touches_of_step h
    exact ⟨htouches.palette, htouches.fonts⟩
  | execute w =>
    refine orKeep_map_of (.refl m) fun advance next h => ?_
    obtain ⟨f, -, hperform⟩ := exists_perform_of_execute h
    exact ⟨(perform_touches hperform).palette, (perform_touches hperform).fonts⟩
  | load program =>
    obtain ⟨ram, hserve⟩ := m.exists_serve_load_eq program
    rw [hserve]
    exact ⟨rfl, rfl⟩
  | deliverKey k =>
    obtain ⟨v, awaiting, pc, hserve⟩ := m.exists_serve_deliverKey_eq k
    rw [hserve]
    exact ⟨rfl, rfl⟩
  | restoreFlags bytes =>
    obtain ⟨flags, hserve⟩ := m.exists_serve_restoreFlags_eq bytes
    rw [hserve]
    exact ⟨rfl, rfl⟩
  | _ => exact ⟨rfl, rfl⟩

/-! ## Runs of steps -/

/-- The machine after `n` calls of `step`. One that fails changes nothing. -/
def afterSteps (m : Machine) (n : Nat) : Machine := m.serveAll (List.replicate n .step)

theorem afterSteps_succ (m : Machine) (n : Nat) :
    m.afterSteps (n + 1) = (m.afterSteps n).serve .step := by
  rw [afterSteps, List.replicate_succ', serveAll, List.foldl_append]
  rfl

theorem serve_step_of_ok {m next : Machine} {advance : Advance}
    (h : m.step = .ok (advance, next)) : m.serve .step = next := by
  rw [serve, h]
  rfl

theorem serve_step_of_error {m : Machine} {fault : Fault} (h : m.step = .error fault) :
    m.serve .step = m := by
  rw [serve, h]
  rfl

end Machine
end ChipEight
