import ChipEight.Proofs.Machine.Effects

/-!
# The upper bits of an address are never seen

The program counter, the index register and the return addresses have sixteen bits, but memory has
4096 cells. Two machines that differ only in the upper four bits of these addresses read the same
words, write the same cells, answer every step alike, and differ only in such bits again.
-/

namespace ChipEight

/-! ## Congruent addresses -/

/-- Two addresses select the same cell. -/
def Congruent (a b : UInt16) : Prop := a.toNat % 4096 = b.toNat % 4096

instance (a b : UInt16) : Decidable (Congruent a b) :=
  inferInstanceAs (Decidable (a.toNat % 4096 = b.toNat % 4096))

theorem Congruent.refl (a : UInt16) : Congruent a a := rfl

theorem Congruent.add {a b : UInt16} (h : Congruent a b) (c : UInt16) :
    Congruent (a + c) (b + c) := by
  unfold Congruent at h ⊢
  rw [UInt16.toNat_add, UInt16.toNat_add]
  omega

theorem Congruent.cell_eq {a b : UInt16} (h : Congruent a b) : Ram.cell a = Ram.cell b :=
  Fin.ext h

namespace Ram

variable {a b : UInt16}

theorem read_congr (ram : Ram) (h : Congruent a b) : ram.read a = ram.read b :=
  congrArg (fun c => ram.cells[c]) h.cell_eq

theorem word_congr (ram : Ram) (h : Congruent a b) : ram.word a = ram.word b := by
  unfold word
  rw [ram.read_congr h, ram.read_congr (h.add 1)]

theorem writeAll_congr (ram : Ram) (h : Congruent a b) (bytes : List UInt8) :
    ram.writeAll a bytes = ram.writeAll b bytes := by
  induction bytes generalizing ram a b with
  | nil => rfl
  | cons byte rest ih =>
    have hwrite : ram.write a byte = ram.write b byte :=
      congrArg (fun c : Fin 4096 => ({ cells := ram.cells.set c byte } : Ram)) h.cell_eq
    rw [writeAll, writeAll, hwrite]
    exact ih _ (h.add 1)

end Ram

/-! ## Machines that agree up to congruence -/

/-- Faults of the same kind, with the same word, at congruent addresses. -/
inductive Fault.Alike : Fault → Fault → Prop
  | invalidInstruction (word : UInt16) {p q : UInt16} (h : Congruent p q) :
    Alike (.invalidInstruction word p) (.invalidInstruction word q)
  | stackOverflow {p q : UInt16} (h : Congruent p q) : Alike (.stackOverflow p) (.stackOverflow q)
  | stackUnderflow {p q : UInt16} (h : Congruent p q) :
    Alike (.stackUnderflow p) (.stackUnderflow q)

namespace Machine

/-- The machine with other addresses. -/
def readdress (m : Machine) (pc index : UInt16) (stack : Vector UInt16 16) : Machine :=
  { m with pc, index, stack }

/-- Two machines agree in every field, except that program counter, index register and the places
of the stack are only congruent. -/
structure Alike (m t : Machine) : Prop where
  pc : Congruent m.pc t.pc
  index : Congruent m.index t.index
  stack : ∀ i : Fin 16, Congruent (m.stack.get i) (t.stack.get i)
  others : t = m.readdress t.pc t.index t.stack

/-- Two answers agree: both are the same advance to machines that agree, or both are faults that
agree. -/
inductive SameAnswer : Except Fault (Advance × Machine) → Except Fault (Advance × Machine) → Prop
  | ok (advance : Advance) {m t : Machine} (h : Alike m t) :
    SameAnswer (.ok (advance, m)) (.ok (advance, t))
  | error {f g : Fault} (h : f.Alike g) : SameAnswer (.error f) (.error g)

variable {m : Machine} {pc index : UInt16} {stack : Vector UInt16 16}

theorem Alike.exists_readdress {t : Machine} (h : Alike m t) :
    ∃ pc index stack, t = m.readdress pc index stack :=
  ⟨t.pc, t.index, t.stack, h.others⟩

/-! ## Parts of rules -/

theorem Alike.skipIf (h : Alike m (m.readdress pc index stack)) (condition : Bool) :
    Alike (m.skipIf condition) ((m.readdress pc index stack).skipIf condition) := by
  cases condition
  · exact h
  · exact ⟨h.pc.add 2, h.index, h.stack, rfl⟩

theorem Alike.setLogic (h : Alike m (m.readdress pc index stack)) (x : Fin 16) (b : UInt8) :
    Alike (m.setLogic x b) ((m.readdress pc index stack).setLogic x b) := by
  unfold Machine.setLogic
  dsimp only [readdress, setRegister]
  split
  · exact ⟨h.pc, h.index, h.stack, rfl⟩
  · exact ⟨h.pc, h.index, h.stack, rfl⟩

theorem Alike.storeList (h : Alike m (m.readdress pc index stack)) (registers : List (Fin 16)) :
    Alike (m.storeList registers) ((m.readdress pc index stack).storeList registers) := by
  refine ⟨h.pc, h.index, h.stack, ?_⟩
  have hram := m.ram.writeAll_congr h.index (registers.map fun r => m.register r)
  exact congrArg (fun ram => { m with pc, index, stack, ram }) hram.symm

theorem Alike.storeDecimal (h : Alike m (m.readdress pc index stack)) (b : UInt8) :
    Alike (m.storeDecimal b) ((m.readdress pc index stack).storeDecimal b) := by
  refine ⟨h.pc, h.index, h.stack, ?_⟩
  exact congrArg (fun ram => { m with pc, index, stack, ram }) (m.ram.writeAll_congr h.index _).symm

/-- Registers that are loaded from congruent addresses get the same bytes. -/
theorem Alike.withRegisters (h : Alike m (m.readdress pc index stack)) {v w : Vector UInt8 16}
    (hv : v = w) : Alike { m with v } { m.readdress pc index stack with v := w } := by
  subst hv
  exact ⟨h.pc, h.index, h.stack, rfl⟩

theorem Alike.loadBetween (h : Alike m (m.readdress pc index stack)) (x y : Fin 16) :
    Alike (m.loadBetween x y) ((m.readdress pc index stack).loadBetween x y) := by
  refine h.withRegisters (congrArg Vector.ofFn (funext fun r => ?_))
  rw [m.ram.read_congr (h.index.add _)]
  rfl

theorem Alike.loadBelow (h : Alike m (m.readdress pc index stack)) (x : Fin 16) :
    Alike (m.loadBelow x) ((m.readdress pc index stack).loadBelow x) := by
  refine h.withRegisters (congrArg Vector.ofFn (funext fun r => ?_))
  rw [m.ram.read_congr (h.index.add _)]
  rfl

theorem Alike.moveIndex {t : Machine} (h : Alike m t) (x : Fin 16) :
    Alike (m.moveIndex x) (t.moveIndex x) := by
  obtain ⟨pc, index, stack, rfl⟩ := h.exists_readdress
  have hswitches : (m.readdress pc index stack).switches = m.switches := rfl
  unfold Machine.moveIndex
  rw [hswitches]
  split
  · exact ⟨h.pc, h.index.add _, h.stack, rfl⟩
  · exact h

theorem Alike.rows (h : Alike m (m.readdress pc index stack)) (n : Fin 16) :
    Sprite.rows (m.readdress pc index stack) n = Sprite.rows m n := by
  have hword : ∀ k, m.ram.word (index + k) = m.ram.word (m.index + k) :=
    fun k => (m.ram.word_congr (h.index.add k)).symm
  have hread : ∀ k, m.ram.read (index + k) = m.ram.read (m.index + k) :=
    fun k => (m.ram.read_congr (h.index.add k)).symm
  unfold Sprite.rows
  dsimp only [readdress]
  simp only [hword, hread]

/-- Machines that agree still do with the same pixels drawn. -/
theorem Alike.drawn (h : Alike m (m.readdress pc index stack)) (collided : Bool) (screen : Raster) :
    Alike { m.setRegister 15 (if collided then 1 else 0) with screen, redraw := true }
      { (m.readdress pc index stack).setRegister 15 (if collided then 1 else 0) with
        screen, redraw := true } :=
  ⟨h.pc, h.index, h.stack, rfl⟩

theorem Alike.drawSprite (h : Alike m (m.readdress pc index stack)) (x y n : Fin 16) :
    Alike (m.drawSprite x y n) ((m.readdress pc index stack).drawSprite x y n) := by
  have htargets : (m.readdress pc index stack).spriteTargets x y n = m.spriteTargets x y n := by
    unfold spriteTargets
    rw [h.rows]
    rfl
  unfold Machine.drawSprite
  rw [htargets]
  exact h.drawn _ _

/-! ## Calls and returns -/

theorem Alike.call (h : Alike m (m.readdress pc index stack)) (o : Operands) :
    SameAnswer (m.perform o .call) ((m.readdress pc index stack).perform o .call) := by
  by_cases hroom : m.depth.val < 16
  · rw [perform, perform, dif_pos hroom]
    rw [dif_pos (show (m.readdress pc index stack).depth.val < 16 from hroom)]
    refine .ok .stay ⟨.refl _, h.index, ?_, rfl⟩
    intro i
    show Congruent (m.stack.set m.depth.val (m.pc + 2))[i.val]
      (stack.set m.depth.val (pc + 2))[i.val]
    rw [Vector.getElem_set, Vector.getElem_set]
    split
    · exact h.pc.add 2
    · exact h.stack i
  · rw [perform, perform, dif_neg hroom]
    rw [dif_neg (show ¬ (m.readdress pc index stack).depth.val < 16 from hroom)]
    exact .error (.stackOverflow h.pc)

theorem Alike.ret (h : Alike m (m.readdress pc index stack)) (o : Operands) :
    SameAnswer (m.perform o .ret) ((m.readdress pc index stack).perform o .ret) := by
  by_cases hempty : m.depth.val = 0
  · rw [perform, perform, dif_pos hempty]
    rw [dif_pos (show (m.readdress pc index stack).depth.val = 0 from hempty)]
    exact .error (.stackUnderflow h.pc)
  · rw [perform, perform, dif_neg hempty]
    rw [dif_neg (show ¬ (m.readdress pc index stack).depth.val = 0 from hempty)]
    exact .ok .stay ⟨h.stack _, h.index, h.stack, rfl⟩

/-! ## Steps -/

theorem Alike.perform (h : Alike m (m.readdress pc index stack)) (o : Operands)
    (operation : Operation) :
    SameAnswer (m.perform o operation) ((m.readdress pc index stack).perform o operation) := by
  cases operation
  case call => exact h.call o
  case ret => exact h.ret o
  case skipIfByte | skipUnlessByte | skipIfRegister | skipUnlessRegister | skipIfKey |
      skipUnlessKey =>
    exact .ok .next (h.skipIf _)
  case orRegister | andRegister | xorRegister => exact .ok .next (h.setLogic _ _)
  case jump | jumpOffset => exact .ok .stay ⟨.refl _, h.index, h.stack, rfl⟩
  case setIndex | smallGlyph | bigGlyph => exact .ok .next ⟨h.pc, .refl _, h.stack, rfl⟩
  case addIndex => exact .ok .next ⟨h.pc, h.index.add _, h.stack, rfl⟩
  case saveRange => exact .ok .next (h.storeList _)
  case loadRange => exact .ok .next (h.loadBetween _ _)
  case storeDecimal => exact .ok .next (h.storeDecimal _)
  case storeRegisters => exact .ok .next ((h.storeList _).moveIndex _)
  case loadRegisters => exact .ok .next ((h.loadBelow _).moveIndex _)
  case drawSprite => exact .ok .next (h.drawSprite _ _ _)
  case loadFlags => exact .ok .next (h.withRegisters rfl)
  case readKey =>
    have hkey : (m.readdress pc index stack).pressedKey = m.pressedKey := rfl
    simp only [Machine.perform, hkey]
    cases m.pressedKey
    · exact .ok .stay ⟨h.pc, h.index, h.stack, rfl⟩
    · exact .ok .next ⟨h.pc, h.index, h.stack, rfl⟩
  case exit => exact .ok .stay ⟨h.pc, h.index, h.stack, rfl⟩
  -- The other rules neither read nor set an address.
  all_goals
    refine .ok .next ?_
    exact ⟨h.pc, h.index, h.stack, rfl⟩

/-- Machines that agree execute any word alike. -/
theorem Alike.execute {t : Machine} (h : Alike m t) (w : UInt16) :
    SameAnswer (m.execute w) (t.execute w) := by
  obtain ⟨pc, index, stack, rfl⟩ := h.exists_readdress
  have hdialect : (m.readdress pc index stack).dialect = m.dialect := rfl
  unfold Machine.execute
  rw [hdialect]
  cases (Form.find? w).filter fun f => f.dialect ≤ m.dialect with
  | none => exact .error (.invalidInstruction w h.pc)
  | some form => exact h.perform (Operands.ofWord w) form.operation

theorem Alike.movePc {t : Machine} (h : Alike m t) (distance : UInt16) :
    Alike { m with pc := m.pc + distance } { t with pc := t.pc + distance } := by
  obtain ⟨pc, index, stack, rfl⟩ := h.exists_readdress
  exact ⟨h.pc.add distance, h.index, h.stack, rfl⟩

/-- Machines that agree read the same word and answer the step alike. -/
theorem Alike.step {t : Machine} (h : Alike m t) : SameAnswer m.step t.step := by
  have hword : t.currentWord = m.currentWord := by
    obtain ⟨pc, index, stack, rfl⟩ := h.exists_readdress
    exact (m.ram.word_congr h.pc).symm
  unfold Machine.step
  rw [hword]
  have hanswer := h.execute m.currentWord
  generalize m.execute m.currentWord = a, t.execute m.currentWord = b at hanswer
  cases hanswer with
  | ok advance hnext => exact .ok advance (hnext.movePc advance.distance)
  | error hfault => exact .error hfault

/-! ## Runs -/

/-- After a step machines that agreed agree, also if the step failed. -/
theorem Alike.serve_step {t : Machine} (h : Alike m t) : Alike (m.serve .step) (t.serve .step) := by
  have hanswer := h.step
  unfold serve
  generalize m.step = a, t.step = b at hanswer
  cases hanswer with
  | ok advance hnext => exact hnext
  | error => exact h

theorem Alike.afterSteps {t : Machine} (h : Alike m t) (n : Nat) :
    Alike (m.afterSteps n) (t.afterSteps n) := by
  induction n with
  | zero => exact h
  | succ n ih =>
    rw [afterSteps_succ, afterSteps_succ]
    exact ih.serve_step

/-- The upper four bits of addresses are never seen: of machines that agree but for these bits, runs
of any length answer every step with the same advance, or the same fault up to these bits of its
address, and end in machines that agree again. -/
theorem answers_of_alike {m t : Machine} (h : Alike m t) (n : Nat) :
    (∀ k < n, SameAnswer (m.afterSteps k).step (t.afterSteps k).step) ∧
      Alike (m.afterSteps n) (t.afterSteps n) :=
  ⟨fun k _ => (h.afterSteps k).step, h.afterSteps n⟩

/-- A program that calls, adds to the index register, stores, and returns, run from addresses with
different upper bits, one of them next to the end of all addresses. -/
theorem answers_of_alike_wrapped :
    let ram := ({} : Ram).writeAll 0xFFE [0x22, 0x04]
    let m : Machine := {
      ram := ram.writeAll 0x204 [0xF0, 0x1E, 0xF2, 0x33, 0xF1, 0x55, 0x00, 0xEE]
      pc := 0x0FFE, index := 0x0FFF, dialect := .xoChip }
    let t := m.readdress 0xFFFE 0xFFFF (Vector.replicate 16 0xA000)
    Alike m t ∧ (∀ k < 6, SameAnswer (m.afterSteps k).step (t.afterSteps k).step) ∧
      Alike (m.afterSteps 6) (t.afterSteps 6) := by
  intro ram m t
  have hstack : ∀ i : Fin 16, Congruent (m.stack.get i) (t.stack.get i) := by
    intro i
    show Congruent (Vector.replicate 16 0)[i] (Vector.replicate 16 0xA000)[i]
    rw [Fin.getElem_fin, Fin.getElem_fin, Vector.getElem_replicate, Vector.getElem_replicate]
    decide
  have hpc : Congruent m.pc t.pc := by decide
  have hindex : Congruent m.index t.index := by decide
  have h : Alike m t := ⟨hpc, hindex, hstack, rfl⟩
  exact ⟨h, answers_of_alike h 6⟩

end Machine
end ChipEight
