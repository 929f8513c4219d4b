import Mathlib.Data.List.Nodup
import ChipEight.Proofs.Bare.Execution
import ChipEight.Proofs.Machine.Registers

/-!
# Execution never stops on bare storage

A machine without its promises executes every word just as the machine does: no access, no sum and
no difference stops it. Parts of rules come first, each with one lemma; the rules are put together
from them.
-/

namespace ChipEight
namespace Machine

open Bare

/-- A machine without its promises. -/
def bare (m : Machine) : State where
  memory := m.ram.cells.toArray
  v := m.v.toArray
  flags := m.flags.toArray
  index := m.index
  pc := m.pc
  depth := m.depth.val
  stack := m.stack.toArray
  delay := m.delay
  sound := m.sound
  keys := m.keys.toArray
  awaiting := m.awaiting.map (·.val)
  screen := m.screen.bare
  running := m.running
  redraw := m.redraw
  switches := m.switches
  dialect := m.dialect
  fonts := m.fonts
  palette := m.palette
  breakpoints := m.breakpoints
  noise := m.noise

/-! ## Memory and registers -/

theorem read_bare (m : Machine) (a : UInt16) : m.bare.read a = some (m.ram.read a) :=
  getElem?_toArray m.ram.cells (Ram.cell a)

theorem write_bare (m : Machine) (a : UInt16) (b : UInt8) :
    m.bare.write a b = some { m with ram := m.ram.write a b }.bare := by
  have h := poke_toArray m.ram.cells (Ram.cell a) b
  show (poke m.ram.cells.toArray (Ram.cell a).val b >>= fun memory => _) = _
  rw [h]
  rfl

theorem word_bare (m : Machine) (a : UInt16) : m.bare.word a = some (m.ram.word a) := by
  rw [State.word, m.read_bare, m.read_bare]
  rfl

theorem register_bare (m : Machine) (x : Fin 16) : m.bare.v[x.val]? = some (m.register x) :=
  getElem?_toArray m.v x

theorem setRegister_bare (m : Machine) (x : Fin 16) (b : UInt8) :
    m.bare.setRegister x.val b = some (m.setRegister x b).bare := by
  have h := poke_toArray m.v x b
  show (poke m.v.toArray x.val b >>= fun v => _) = _
  rw [h]
  rfl

theorem setWithFlag_bare (m : Machine) (x : Fin 16) (b : UInt8) (flag : Bool) :
    m.bare.setWithFlag x.val b flag = some (m.setWithFlag x b flag).bare := by
  rw [State.setWithFlag, m.setRegister_bare]
  exact setRegister_bare (m.setRegister x b) 15 (if flag then 1 else 0)

theorem setLogic_bare (m : Machine) (x : Fin 16) (b : UInt8) :
    m.bare.setLogic x.val b = some (m.setLogic x b).bare := by
  rw [State.setLogic, m.setRegister_bare]
  show (if m.switches.clearFlag then (m.setRegister x b).bare.setRegister 15 0
    else pure (m.setRegister x b).bare) = _
  show _ = some (if m.switches.clearFlag then (m.setRegister x b).setRegister 15 0
    else m.setRegister x b).bare
  cases m.switches.clearFlag with
  | false => rfl
  | true => exact setRegister_bare (m.setRegister x b) 15 0

theorem shiftSource_bare (m : Machine) (x y : Fin 16) :
    m.bare.shiftSource x.val y.val = some (m.shiftSource x y) := by
  rw [State.shiftSource, m.register_bare, m.register_bare, shiftSource]
  exact (apply_ite some _ _ _).symm

theorem skipIf_bare (m : Machine) (condition : Bool) :
    m.bare.skipIf condition = (m.skipIf condition).bare := by
  cases condition <;> rfl

theorem moveIndex_bare (m : Machine) (x : Fin 16) :
    m.bare.moveIndex x.val = some (m.moveIndex x).bare := by
  have hsum : sum 16 x.val 1 = some (x.val + 1) := sum_eq_some (by omega)
  rw [State.moveIndex, moveIndex, hsum]
  show (if m.switches.moveIndex then _ else _) = _
  cases m.switches.moveIndex <;> rfl

/-! ## Runs of registers -/

theorem registerRange_bare (x y : Fin 16) :
    State.registerRange x.val y.val = some ((registerRange x y).map (·.val)) := by
  revert x y
  decide +kernel

theorem storeFrom_bare (m : Machine) : ∀ (registers : List (Fin 16)) (n : Nat),
    m.bare.storeFrom n (registers.map (·.val)) = some { m with
      ram := m.ram.writeAll (m.index + UInt16.ofNat n) (registers.map fun r => m.register r) }.bare
  | [], _ => rfl
  | r :: rest, n => by
    have hnext : m.index + UInt16.ofNat (n + 1) = m.index + UInt16.ofNat n + 1 := by
      rw [UInt16.ofNat_add, UInt16.add_assoc]
      rfl
    rw [List.map_cons, State.storeFrom, m.register_bare]
    show (m.bare.write (m.index + UInt16.ofNat n) (m.register r) >>= fun s => _) = _
    rw [m.write_bare]
    -- One register further, the rest starts one address further.
    have ih := storeFrom_bare
      { m with ram := m.ram.write (m.index + UInt16.ofNat n) (m.register r) } rest (n + 1)
    rw [hnext] at ih
    exact ih

/-- The machine with registers loaded one after another. -/
def loadList (m : Machine) (n : Nat) : List (Fin 16) → Machine
  | [] => m
  | r :: rest => (m.setRegister r (m.ram.read (m.index + UInt16.ofNat n))).loadList (n + 1) rest

theorem loadFrom_bare : ∀ (m : Machine) (registers : List (Fin 16)) (n : Nat),
    m.bare.loadFrom n (registers.map (·.val)) = some (m.loadList n registers).bare
  | _, [], _ => rfl
  | m, r :: rest, n => by
    rw [List.map_cons, State.loadFrom]
    show (m.bare.read (m.index + UInt16.ofNat n) >>= fun b => _) = _
    rw [m.read_bare]
    show (m.bare.setRegister r.val _ >>= fun s => _) = _
    rw [m.setRegister_bare]
    exact loadFrom_bare _ rest (n + 1)

/-- The machine with other registers. -/
def withRegisters (m : Machine) (f : Fin 16 → UInt8) : Machine := { m with v := Vector.ofFn f }

theorem withRegisters_register (m : Machine) : m.withRegisters m.register = m := by
  have hv : Vector.ofFn m.register = m.v := by
    ext1 i hi
    exact Vector.getElem_ofFn hi
  show { m with v := Vector.ofFn m.register } = m
  rw [hv]

/-- Each of different registers gets the byte at its place in the list. -/
theorem loadList_eq : ∀ (m : Machine) {registers : List (Fin 16)} (n : Nat), registers.Nodup →
    m.loadList n registers = m.withRegisters fun r =>
      if registers.contains r then m.ram.read (m.index + UInt16.ofNat (n + registers.idxOf r))
      else m.register r
  | m, [], _, _ => m.withRegisters_register.symm
  | m, s :: rest, n, h => by
    obtain ⟨hs, hrest⟩ := List.nodup_cons.mp h
    rw [loadList, loadList_eq _ (n + 1) hrest]
    refine congrArg m.withRegisters (funext fun r => ?_)
    by_cases heq : r = s
    · -- No later register is `s` again, so the byte loaded first stays.
      subst heq
      simp [hs, register_setRegister]
    · have hidx : n + (s :: rest).idxOf r = n + 1 + rest.idxOf r := by
        rw [List.idxOf_cons_ne rest (fun h => heq h.symm)]
        omega
      rw [register_setRegister, if_neg heq, List.contains_cons, beq_false_of_ne heq,
        Bool.false_or, hidx]
      rfl

/-- Registers that are numbered in order are loaded from the places of their numbers. -/
theorem loadList_of_places (m : Machine) {registers : List (Fin 16)} {place : Fin 16 → Nat}
    {n : Nat} {loaded : Fin 16 → Prop} [DecidablePred loaded]
    (hplaces : registers.map place = List.range n)
    (hmem : ∀ r, r ∈ registers ↔ loaded r) :
    m.loadList 0 registers = m.withRegisters fun r =>
      if loaded r then m.ram.read (m.index + UInt16.ofNat (place r)) else m.register r := by
  have hnodup : registers.Nodup := List.Nodup.of_map place (hplaces ▸ List.nodup_range)
  rw [loadList_eq m 0 hnodup]
  refine congrArg m.withRegisters (funext fun r => ?_)
  rw [Nat.zero_add]
  by_cases h : loaded r
  · have hr : r ∈ registers := (hmem r).mpr h
    rw [if_pos (List.contains_iff_mem.mpr hr), if_pos h, idxOf_of_map_eq_range hplaces hr]
  · rw [if_neg (fun hr => h ((hmem r).mp (List.contains_iff_mem.mp hr))), if_neg h]

theorem loadList_registerRange (m : Machine) (x y : Fin 16) :
    m.loadList 0 (registerRange x y) = m.loadBetween x y :=
  m.loadList_of_places (map_registerDistance x y) fun _ => mem_registerRange

theorem loadList_registersBelow (m : Machine) (x : Fin 16) :
    m.loadList 0 (registersBelow x) = m.loadBelow x :=
  m.loadList_of_places (map_val_registersBelow x) fun _ => mem_registersBelow

/-! ## Flag registers -/

theorem keepFlags_bare (m : Machine) (x : Fin 16) :
    ∃ block, slice m.bare.v (min x.val 8) = some block ∧
      splice m.bare.flags 0 block = some (m.keepFlags x).flags.toArray := by
  have hlength : (m.v.toList.take (min x.val 8)).length = min x.val 8 := by
    rw [List.length_take, Vector.length_toList]
    omega
  refine ⟨_, slice_toArray m.v (by omega), ?_⟩
  show splice m.flags.toArray 0 (m.v.toList.take (min x.val 8)) = _
  rw [splice_toArray m.flags (by decide) (by omega), lay_toArray, keepFlags]
  refine congrArg (fun flags : Vector UInt8 8 => some flags.toArray) ?_
  ext1 i hi
  have hv : m.v[i]? = some m.v[i] := Vector.getElem?_eq_getElem (by omega)
  have hmin : i < min x.val 8 ↔ i < x.val := by omega
  simp only [Vector.getElem_ofFn, List.getElem?_toArray, Nat.zero_le, if_true, Nat.sub_zero,
    getElem?_take_toList, hv, hmin]
  by_cases h : i < x.val
  · rw [if_pos h, if_pos h]
    rfl
  · rw [if_neg h, if_neg h]
    rfl

theorem recallFlags_bare (m : Machine) (x : Fin 16) :
    ∃ block, slice m.bare.flags (min x.val 8) = some block ∧
      splice m.bare.v 0 block = some (m.recallFlags x).v.toArray := by
  have hlength : (m.flags.toList.take (min x.val 8)).length = min x.val 8 := by
    rw [List.length_take, Vector.length_toList]
    omega
  refine ⟨_, slice_toArray m.flags (by omega), ?_⟩
  show splice m.v.toArray 0 (m.flags.toList.take (min x.val 8)) = _
  rw [splice_toArray m.v (by decide) (by omega), lay_toArray, recallFlags]
  refine congrArg (fun v : Vector UInt8 16 => some v.toArray) ?_
  ext1 i hi
  simp only [Vector.getElem_ofFn, List.getElem?_toArray, Nat.zero_le, if_true, Nat.sub_zero,
    getElem?_take_toList]
  by_cases h : i < 8 ∧ i < x.val
  · have hflags : m.flags[i]? = some m.flags[i] := Vector.getElem?_eq_getElem (by omega)
    rw [if_pos (by omega), dif_pos h, hflags]
    rfl
  · rw [if_neg (by omega), dif_neg h]
    rfl

end Machine
end ChipEight
