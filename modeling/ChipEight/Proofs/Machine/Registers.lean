import Mathlib.Data.List.Nodup
import ChipEight.Machine.Step

/-!
# Runs of registers

Registers are stored and loaded in runs: those below one, or those from one to another. Every
register of a run has its place in it, and no register has two.
-/

namespace ChipEight
namespace Machine

/-! ## Single registers -/

theorem flagRegister_eq : flagRegister = 15 := rfl

theorem get_set {α : Type} {n : Nat} (xs : Vector α n) (i j : Fin n) (a : α) :
    (xs.set i.val a i.isLt).get j = if j = i then a else xs.get j := by
  show (xs.set i.val a)[j.val] = _
  rw [Vector.getElem_set]
  by_cases h : j = i
  · rw [if_pos h, if_pos (congrArg Fin.val h.symm)]
  · rw [if_neg h, if_neg (fun hval => h (Fin.ext hval.symm))]
    rfl

theorem register_setRegister (m : Machine) (x r : Fin 16) (b : UInt8) :
    (m.setRegister x b).register r = if r = x then b else m.register r :=
  get_set m.v x r b

/-! ## Registers below one -/

/-- The place of a register below another is its number. -/
theorem map_val_registersBelow (x : Fin 16) :
    (registersBelow x).map (·.val) = List.range x.val := by
  revert x
  decide +kernel

theorem mem_registersBelow {x r : Fin 16} : r ∈ registersBelow x ↔ r < x := by
  simp [registersBelow]

theorem length_registersBelow (x : Fin 16) : (registersBelow x).length = x.val := by
  revert x
  decide +kernel

/-! ## Registers between two -/

theorem mem_registerRange {x y r : Fin 16} :
    r ∈ registerRange x y ↔ isBetween x y r = true := by
  unfold registerRange
  split <;> simp

/-- The range the other way has the same registers in the opposite order. -/
theorem registerRange_swap (x y : Fin 16) : registerRange y x = (registerRange x y).reverse := by
  revert x y
  decide +kernel

/-- The place of a register in a range is its distance from the first. -/
theorem map_registerDistance (x y : Fin 16) :
    (registerRange x y).map (registerDistance x) = List.range (registerRange x y).length := by
  revert x y
  decide +kernel

theorem length_registerRange (x y : Fin 16) :
    (registerRange x y).length = registerDistance x y + 1 := by
  revert x y
  decide +kernel

/-! ## Places -/

/-- A list whose elements are numbered in order has each at its number. -/
theorem idxOf_of_map_eq_range {registers : List (Fin 16)} {f : Fin 16 → Nat} {n : Nat}
    (h : registers.map f = List.range n) {r : Fin 16} (hr : r ∈ registers) :
    registers.idxOf r = f r := by
  have hlength : registers.length = n := by simpa using congrArg List.length h
  have hlt : registers.idxOf r < n := hlength ▸ List.idxOf_lt_length_of_mem hr
  have hat : (registers.map f)[registers.idxOf r]? = some (registers.idxOf r) := by
    rw [h, List.getElem?_range hlt]
  rw [List.getElem?_map, List.getElem?_idxOf hr] at hat
  exact (Option.some.inj hat).symm

end Machine
end ChipEight
