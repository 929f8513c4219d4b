import Mathlib.Algebra.Group.Nat.Defs

/-!
# Bare storage

Arrays and numbers without the promises of a type. An access beyond the end of an array, a sum that
does not fit its width and a difference below zero stop the computation: the result is `none`. A
vector is such an array with the right size, and its accesses never stop.
-/

namespace ChipEight.Bare

/-! ## Arithmetic -/

/-- A sum of `bits` bits. -/
def sum (bits a b : Nat) : Option Nat := if a + b < 2 ^ bits then some (a + b) else none

/-- A product of `bits` bits. -/
def product (bits a b : Nat) : Option Nat := if a * b < 2 ^ bits then some (a * b) else none

/-- A difference that is not negative. -/
def difference (a b : Nat) : Option Nat := if b ≤ a then some (a - b) else none

theorem sum_eq_some {bits a b : Nat} (h : a + b < 2 ^ bits) : sum bits a b = some (a + b) :=
  if_pos h

theorem sum_eq_none {bits a b : Nat} (h : 2 ^ bits ≤ a + b) : sum bits a b = none :=
  if_neg (Nat.not_lt.mpr h)

theorem product_eq_some {bits a b : Nat} (h : a * b < 2 ^ bits) :
    product bits a b = some (a * b) := if_pos h

theorem difference_eq_some {a b : Nat} (h : b ≤ a) : difference a b = some (a - b) := if_pos h

/-! ## Arrays -/

variable {α : Type} {n : Nat}

/-- An array with one element replaced. -/
def poke (xs : Array α) (i : Nat) (a : α) : Option (Array α) :=
  if h : i < xs.size then some (xs.set i a h) else none

/-- The first `count` elements of an array. -/
def slice (xs : Array α) (count : Nat) : Option (List α) :=
  if count ≤ xs.size then some (xs.toList.take count) else none

/-- An array with a block laid over its elements from number `start` on; what reaches beyond the
last element is lost. -/
def lay (xs : Array α) (start : Nat) (block : List α) : Array α :=
  xs.mapIdx fun i a => if start ≤ i then block.toArray[i - start]?.getD a else a

/-- An array with a block that lies inside it replaced. -/
def splice (xs : Array α) (start : Nat) (block : List α) : Option (Array α) := do
  let stop ← sum 64 start block.length
  if stop ≤ xs.size then some (lay xs start block) else none

theorem getElem?_toArray (v : Vector α n) (i : Fin n) : v.toArray[i.val]? = some v[i] := by
  simp

theorem poke_toArray (v : Vector α n) (i : Fin n) (a : α) :
    poke v.toArray i.val a = some (v.set i.val a).toArray := by
  simp [poke]

theorem slice_toArray (v : Vector α n) {count : Nat} (h : count ≤ n) :
    slice v.toArray count = some (v.toList.take count) := by
  simp [slice, h, Vector.toList]

theorem getElem?_take_toList (v : Vector α n) (count i : Nat) :
    (v.toList.take count)[i]? = if i < count then v[i]? else none := by
  rw [List.getElem?_take]
  split
  · simp
  · rfl

theorem lay_toArray (v : Vector α n) (start : Nat) (block : List α) :
    lay v.toArray start block = (Vector.ofFn fun i : Fin n =>
      if start ≤ i.val then block.toArray[i.val - start]?.getD v[i] else v[i]).toArray := by
  apply Array.ext
  · simp [lay]
  · intro i hi hn
    simp [lay]

/-- Elements for the whole array replace it. -/
theorem lay_zero (v w : Vector α n) : lay v.toArray 0 w.toList = w.toArray := by
  apply Array.ext
  · simp [lay]
  · intro i hi hn
    have hi : i < n := by simpa using hn
    have hw : w[i]? = some w[i] := Vector.getElem?_eq_getElem hi
    simp [lay, Vector.toList, hw]

theorem splice_toArray (v : Vector α n) {start : Nat} {block : List α}
    (hn : n < 2 ^ 64) (h : start + block.length ≤ n) :
    splice v.toArray start block = some (lay v.toArray start block) := by
  rw [splice, sum_eq_some (Nat.lt_of_le_of_lt h hn)]
  exact if_pos (by rwa [Vector.size_toArray])

end ChipEight.Bare
