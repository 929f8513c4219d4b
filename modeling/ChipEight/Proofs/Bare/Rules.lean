import ChipEight.Proofs.Bare.Sprites

/-!
# Rules and steps never stop on bare storage

The rule of each operation does on bare storage what it does to the machine (`perform_bare`), so
words and steps do (`execute_bare`, `step_bare`).
-/

namespace ChipEight
namespace Machine

open Bare Bare.State

/-- What the bare machine answers when the machine answers so: after a failure it is unchanged. -/
def answer (m : Machine) : Except Fault (Advance × Machine) → Answer
  | .ok (advance, next) => (.ok advance.distance, next.bare)
  | .error fault => (.error fault, m.bare)

/-! ## Parts of rules -/

theorem findIdx?_bare (m : Machine) : m.bare.keys.findIdx? id = m.pressedKey.map (·.val) := by
  cases hkey : m.pressedKey with
  | none =>
    have hup : ∀ k : Fin 16, m.keys[k] = false := by
      intro k
      have h := List.find?_eq_none.mp hkey k (List.mem_finRange k)
      simpa using h
    refine Array.findIdx?_eq_none_iff.mpr ?_
    intro b hb
    obtain ⟨k, hk, rfl⟩ := Array.getElem_of_mem hb
    exact hup ⟨k, by simpa [bare] using hk⟩
  | some k =>
    obtain ⟨hdown, i, hi, hik, hbefore⟩ := List.find?_eq_some_iff_getElem.mp hkey
    rw [List.getElem_finRange] at hik
    have hval : i = k.val := congrArg Fin.val hik
    -- The first key that is down is the first in the array: all before it are up.
    refine Array.findIdx?_eq_some_iff_getElem.mpr ⟨?_, hdown, ?_⟩
    · simp [bare]
    · intro j hj
      have hj : j < k.val := hj
      have h := hbefore j (by omega)
      rw [List.getElem_finRange] at h
      have hup : m.keys[j] = false := by simpa using h
      show ¬ m.keys[j] = true
      rw [hup]
      decide

theorem key_bare (m : Machine) (b : UInt8) : m.bare.keys[b.toNat % 16]? = some (m.key b) :=
  getElem?_toArray m.keys (keyNumber b)

theorem glyph_bare (start size : Nat) (b : UInt8) (h : start + 16 * size < 2 ^ 16) :
    product 16 (b.toNat % 16) size = some (b.toNat % 16 * size) ∧
      sum 16 start (b.toNat % 16 * size) = some (start + size * (b.toNat % 16)) := by
  have hdigit : b.toNat % 16 * size ≤ 16 * size :=
    Nat.mul_le_mul_right size (Nat.le_of_lt (Nat.mod_lt _ (by decide)))
  rw [Nat.mul_comm size]
  exact ⟨product_eq_some (by omega), sum_eq_some (by omega)⟩

/-! ## Rules -/

/-- Only an empty stack has nothing to return to, and no other look at it misses. -/
theorem ret_bare (m : Machine) (o : Operands) :
    m.bare.perform o.x.val o.y.val o.low.val o.byte o.address .ret =
      some (m.answer (m.perform o .ret)) := by
  by_cases h : m.depth.val = 0
  · have hbare : m.bare.depth = 0 := h
    rw [State.perform, perform, if_pos hbare, dif_pos h]
    rfl
  · have hbare : m.bare.depth ≠ 0 := h
    have hdepth : difference m.bare.depth 1 = some (m.depth.val - 1) :=
      difference_eq_some (Nat.pos_of_ne_zero hbare)
    have htop : m.bare.stack[m.depth.val - 1]? = some m.stack[m.depth.val - 1] :=
      getElem?_toArray m.stack ⟨m.depth.val - 1, by omega⟩
    rw [State.perform, perform, if_neg hbare, dif_neg h, hdepth]
    show (m.bare.stack[m.depth.val - 1]? >>= fun pc => _) = _
    rw [htop]
    rfl

/-- A stack that is not full has a place for one more return address. -/
theorem call_bare (m : Machine) (o : Operands) :
    m.bare.perform o.x.val o.y.val o.low.val o.byte o.address .call =
      some (m.answer (m.perform o .call)) := by
  by_cases h : m.depth.val < 16
  · have hbare : ¬ 16 ≤ m.bare.depth := Nat.not_le.mpr h
    have hstack := poke_toArray m.stack ⟨m.depth.val, h⟩ (m.pc + 2)
    have hdepth : sum 64 m.bare.depth 1 = some (m.depth.val + 1) := sum_eq_some (by omega)
    rw [State.perform, perform, if_neg hbare, dif_pos h, hdepth]
    show (poke m.stack.toArray m.depth.val (m.pc + 2) >>= fun stack => _) = _
    rw [hstack]
    rfl
  · have hbare : 16 ≤ m.bare.depth := Nat.not_lt.mp h
    rw [State.perform, perform, if_pos hbare, dif_neg h]
    rfl

theorem storeDecimal_bare (m : Machine) (o : Operands) :
    m.bare.perform o.x.val o.y.val o.low.val o.byte o.address .storeDecimal =
      some (m.answer (m.perform o .storeDecimal)) := by
  have hplace : m.index + 1 + 1 = m.index + 2 := UInt16.add_assoc m.index 1 1
  show (m.bare.v[o.x.val]? >>= fun a => _) = _
  rw [m.register_bare]
  show (m.bare.write m.index _ >>= fun s => _) = _
  rw [write_bare]
  show (State.write (bare _) (m.index + 1) _ >>= fun s => _) = _
  rw [write_bare]
  show (State.write (bare _) (m.index + 2) _ >>= fun s => _) = _
  rw [write_bare, ← hplace]
  rfl

/-- Performing an operation on bare storage never stops. -/
theorem perform_bare (m : Machine) (o : Operands) (operation : Operation) :
    m.bare.perform o.x.val o.y.val o.low.val o.byte o.address operation =
      some (m.answer (m.perform o operation)) := by
  have hup : m.screen.top.val + o.low.val < 2 ^ 64 := by omega
  have hleft : m.screen.left.val + 4 < 2 ^ 64 := by omega
  have hstart : m.index + UInt16.ofNat 0 = m.index := UInt16.add_zero _
  cases operation
  case ret => exact m.ret_bare o
  case call => exact m.call_bare o
  case storeDecimal => exact m.storeDecimal_bare o
  case clearScreen =>
    show next (m.bare.changeScreen m.screen.bare.clear) = _
    rw [m.screen.clear_bare]
    rfl
  case scrollDown =>
    show (m.screen.bare.scrollDown o.low.val >>= fun screen => _) = _
    rw [m.screen.scrollDown_bare]
    rfl
  case scrollUp =>
    show (m.screen.bare.scrollUp o.low.val >>= fun screen => _) = _
    rw [m.screen.scrollUp_bare hup]
    rfl
  case scrollRight =>
    show (m.screen.bare.scrollRight 4 >>= fun screen => _) = _
    rw [m.screen.scrollRight_bare]
    rfl
  case scrollLeft =>
    show (m.screen.bare.scrollLeft 4 >>= fun screen => _) = _
    rw [m.screen.scrollLeft_bare hleft]
    rfl
  case saveRange =>
    show (State.registerRange o.x.val o.y.val >>= fun registers => _) = _
    rw [registerRange_bare]
    show (m.bare.storeFrom 0 _ >>= next) = _
    rw [m.storeFrom_bare, hstart]
    rfl
  case loadRange =>
    show (State.registerRange o.x.val o.y.val >>= fun registers => _) = _
    rw [registerRange_bare]
    show (m.bare.loadFrom 0 _ >>= next) = _
    rw [loadFrom_bare, loadList_registerRange]
    rfl
  case storeRegisters =>
    show (m.bare.storeFrom 0 (List.range o.x.val) >>= fun s => _) = _
    rw [← map_val_registersBelow, m.storeFrom_bare, hstart]
    show (State.moveIndex (bare _) o.x.val >>= next) = _
    rw [moveIndex_bare]
    rfl
  case loadRegisters =>
    show (m.bare.loadFrom 0 (List.range o.x.val) >>= fun s => _) = _
    rw [← map_val_registersBelow, loadFrom_bare, loadList_registersBelow]
    show (State.moveIndex (bare _) o.x.val >>= next) = _
    rw [moveIndex_bare]
    rfl
  case storeFlags =>
    obtain ⟨block, hslice, hsplice⟩ := m.keepFlags_bare o.x
    simp only [State.perform, hslice, hsplice, Option.bind_eq_bind, Option.bind_some]
    rfl
  case loadFlags =>
    obtain ⟨block, hslice, hsplice⟩ := m.recallFlags_bare o.x
    simp only [State.perform, hslice, hsplice, Option.bind_eq_bind, Option.bind_some]
    rfl
  case jumpOffset =>
    have hregister : (if m.switches.jumpByDigit then o.x.val else 0) =
        (if m.switches.jumpByDigit then o.x else 0 : Fin 16).val := by
      cases m.switches.jumpByDigit <;> rfl
    show (m.bare.v[if m.switches.jumpByDigit then o.x.val else 0]? >>= fun a => _) = _
    rw [hregister, m.register_bare]
    rfl
  case readKey =>
    rw [State.perform, perform, m.findIdx?_bare]
    cases m.pressedKey with
    | none => rfl
    | some k =>
      show (m.bare.setRegister o.x.val _ >>= next) = _
      rw [m.setRegister_bare]
      rfl
  case smallGlyph =>
    obtain ⟨hproduct, hsum⟩ :=
      glyph_bare Ram.smallGlyphs Glyph.smallSize (m.register o.x) (by decide)
    simp only [State.perform, register_bare, hproduct, hsum, Option.bind_eq_bind,
      Option.bind_some]
    rfl
  case bigGlyph =>
    obtain ⟨hproduct, hsum⟩ :=
      glyph_bare Ram.bigGlyphs Glyph.bigSize (m.register o.x) (by decide)
    simp only [State.perform, register_bare, hproduct, hsum, Option.bind_eq_bind,
      Option.bind_some]
    rfl
  -- The other rules look registers up, compute, and set a register, a flag or a field.
  all_goals
    simp only [State.perform, register_bare, setRegister_bare, setWithFlag_bare, setLogic_bare,
      shiftSource_bare, skipIf_bare, key_bare, drawSprite_bare, Option.bind_eq_bind,
      Option.bind_some]
    rfl

/-! ## Words and steps -/

/-- Executing any word on bare storage never stops. -/
theorem execute_bare (m : Machine) (w : UInt16) :
    m.bare.execute w = some (m.answer (m.execute w)) := by
  have hbyte : UInt8.ofNat w.toNat = (Operands.ofWord w).byte := by
    refine UInt8.toNat_inj.mp ?_
    simp only [Operands.ofWord, UInt8.toNat_ofNat']
    omega
  have hx : w.toNat / 256 % 16 = (Operands.ofWord w).x.val := by
    show w.toNat / 256 % 16 = w.toNat >>> 8 % 16
    rw [Nat.shiftRight_eq_div_pow]
  have hy : w.toNat / 16 % 16 = (Operands.ofWord w).y.val := by
    show w.toNat / 16 % 16 = w.toNat >>> 4 % 16
    rw [Nat.shiftRight_eq_div_pow]
  have hlow : w.toNat % 16 = (Operands.ofWord w).low.val := rfl
  have hforms : (Form.find? w).filter (fun f => f.dialect ≤ m.bare.dialect) =
      (Form.find? w).filter fun f => f.dialect ≤ m.dialect := rfl
  rw [State.execute, execute, hforms]
  cases (Form.find? w).filter fun f => f.dialect ≤ m.dialect with
  | none => rfl
  | some form =>
    simp only [hx, hy, hlow, hbyte]
    exact m.perform_bare (Operands.ofWord w) form.operation

/-- A step on bare storage never stops. -/
theorem step_bare (m : Machine) : m.bare.step = some (m.answer m.step) := by
  rw [State.step]
  show (m.bare.word m.pc >>= fun w => _) = _
  rw [m.word_bare]
  show (m.bare.execute m.currentWord >>= fun answer => _) = _
  rw [m.execute_bare, step]
  cases m.execute m.currentWord with
  | error fault => rfl
  | ok result => rfl

end Machine
end ChipEight
