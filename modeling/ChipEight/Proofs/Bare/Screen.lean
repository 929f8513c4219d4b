import ChipEight.Machine.Raster
import ChipEight.Proofs.Bare.Storage

/-!
# The bare screen

The screen over bare storage: its window is two numbers, and the number of a cell is computed with
sums that may not overflow. The screens of a `Raster` never stop while coordinates and distances
stay below `2 ^ 63`.
-/

namespace ChipEight
namespace Bare

/-- The cells of a screen and its window, without promises. -/
structure Screen where
  cells : Array Bool
  resolution : Resolution
  left : Nat
  top : Nat

namespace Screen

def width (s : Screen) : Nat := s.resolution.width

def height (s : Screen) : Nat := s.resolution.height

def cell (s : Screen) (x y : Nat) : Option Nat := do
  let (column, row) ← match s.resolution with
    | .standard => pure (x % 64, y % 32)
    | .extended => do
      let column ← sum 64 x s.left
      let row ← sum 64 y s.top
      pure (column % 128, row % 64)
  sum 64 (← product 64 row 128) column

def pixel (s : Screen) (x y : Nat) : Option Bool := do s.cells[← s.cell x y]?

/-- Flips a pixel; the first part of the result tells whether it was lit. -/
def toggle (s : Screen) (x y : Nat) : Option (Bool × Screen) := do
  let i ← s.cell x y
  let was ← s.cells[i]?
  let cells ← poke s.cells i (!was)
  pure (was, { s with cells })

def clear (s : Screen) : Screen := { s with cells := s.cells.map fun _ => false }

/-- The pixels of a list that are lit. -/
def keepLit (s : Screen) : List (Nat × Nat) → Option (List (Nat × Nat))
  | [] => some []
  | p :: rest => do
    let lit ← s.pixel p.1 p.2
    let others ← s.keepLit rest
    pure (if lit then p :: others else others)

def litPixels (s : Screen) : Option (List (Nat × Nat)) :=
  s.keepLit ((List.range s.height).flatMap fun y => (List.range s.width).map fun x => (x, y))

def scrollRight (s : Screen) (n : Nat) : Option Screen := do
  let left ← difference (← sum 64 s.left 128) (n % 128)
  pure { s with left := left % 128 }

def scrollLeft (s : Screen) (n : Nat) : Option Screen := do
  let left ← sum 64 s.left n
  pure { s with left := left % 128 }

def scrollDown (s : Screen) (n : Nat) : Option Screen := do
  let top ← difference (← sum 64 s.top 64) (n % 64)
  pure { s with top := top % 64 }

def scrollUp (s : Screen) (n : Nat) : Option Screen := do
  let top ← sum 64 s.top n
  pure { s with top := top % 64 }

end Screen
end Bare

namespace Raster

/-- A screen without its promises. -/
def bare (s : Raster) : Bare.Screen where
  cells := s.cells.toArray
  resolution := s.resolution
  left := s.left.val
  top := s.top.val

open Bare

/-! ## Pixels -/

theorem cell_bare (s : Raster) {x y : Nat} (hx : x < 2 ^ 63) (hy : y < 2 ^ 63) :
    s.bare.cell x y = some (s.cellOf x y).val := by
  have hrow : ∀ r : Fin 64, product 64 r.val 128 = some (r.val * 128) := by
    intro r
    exact product_eq_some (by omega)
  have hcell : ∀ (r : Fin 64) (c : Fin 128),
      sum 64 (r.val * 128) c.val = some (r.val * 128 + c.val) := by
    intro r c
    exact sum_eq_some (by omega)
  cases hresolution : s.resolution with
  | standard =>
    have hrow := hrow (s.row y)
    have hcell := hcell (s.row y) (s.column x)
    simp only [row, column, hresolution] at hrow hcell
    simp [Screen.cell, bare, cellOf, row, column, hresolution, hrow, hcell]
  | extended =>
    have hleft : sum 64 x s.left.val = some (x + s.left.val) :=
      sum_eq_some (by omega)
    have htop : sum 64 y s.top.val = some (y + s.top.val) :=
      sum_eq_some (by omega)
    have hrow := hrow (s.row y)
    have hcell := hcell (s.row y) (s.column x)
    simp only [row, column, hresolution] at hrow hcell
    simp [Screen.cell, bare, cellOf, row, column, hresolution, hleft, htop, hrow, hcell]

theorem pixel_bare (s : Raster) {x y : Nat} (hx : x < 2 ^ 63) (hy : y < 2 ^ 63) :
    s.bare.pixel x y = some (s.pixel x y) := by
  rw [Screen.pixel, s.cell_bare hx hy]
  exact getElem?_toArray s.cells (s.cellOf x y)

theorem toggle_bare (s : Raster) {x y : Nat} (hx : x < 2 ^ 63) (hy : y < 2 ^ 63) :
    s.bare.toggle x y = some ((s.toggle x y).1, (s.toggle x y).2.bare) := by
  have hwas := getElem?_toArray s.cells (s.cellOf x y)
  have hset := poke_toArray s.cells (s.cellOf x y) (!s.cells[s.cellOf x y])
  rw [Screen.toggle, s.cell_bare hx hy]
  show (s.cells.toArray[(s.cellOf x y).val]? >>= fun was => _) = _
  rw [hwas]
  show (poke s.cells.toArray (s.cellOf x y).val (!s.cells[s.cellOf x y]) >>= fun cells => _) = _
  rw [hset]
  rfl

theorem clear_bare (s : Raster) : s.bare.clear = s.clear.bare := by
  have hcells : s.cells.toArray.map (fun _ => false) = (Vector.replicate 8192 false).toArray := by
    apply Array.ext
    · simp
    · intro i hi hn
      simp
  show Screen.mk _ _ _ _ = Screen.mk _ _ _ _
  rw [show s.bare.cells = s.cells.toArray from rfl, hcells]
  rfl

theorem keepLit_bare (s : Raster) : ∀ {ps : List (Nat × Nat)},
    (∀ p ∈ ps, p.1 < 2 ^ 63 ∧ p.2 < 2 ^ 63) →
    s.bare.keepLit ps = some (ps.filter fun p => s.pixel p.1 p.2)
  | [], _ => rfl
  | p :: ps, h => by
    obtain ⟨hx, hy⟩ := h p List.mem_cons_self
    have ih := s.keepLit_bare fun q hq => h q (List.mem_cons_of_mem p hq)
    rw [Screen.keepLit, s.pixel_bare hx hy, ih, List.filter_cons]
    rfl

theorem width_le (s : Raster) : s.width ≤ 128 := by
  rw [width]
  cases s.resolution <;> decide

theorem height_le (s : Raster) : s.height ≤ 64 := by
  rw [height]
  cases s.resolution <;> decide

/-- Pixels are of one cell if their coordinates wrap to the same ones. -/
theorem cellOf_eq_iff (s : Raster) (x y u v : Nat) :
    s.cellOf x y = s.cellOf u v ↔ x % s.width = u % s.width ∧ y % s.height = v % s.height := by
  rw [Fin.ext_iff]
  cases hresolution : s.resolution <;>
    simp only [cellOf, row, column, width, height, Resolution.width, Resolution.height,
      hresolution] <;>
    omega

theorem litPixels_bare (s : Raster) : s.bare.litPixels = some s.litPixels := by
  have hshown : ∀ p ∈ (List.range s.height).flatMap fun y =>
      (List.range s.width).map fun x => (x, y), p.1 < 2 ^ 63 ∧ p.2 < 2 ^ 63 := by
    intro p hp
    obtain ⟨y, hy, hp⟩ := List.mem_flatMap.mp hp
    obtain ⟨x, hx, rfl⟩ := List.mem_map.mp hp
    have hx : x < 128 := Nat.lt_of_lt_of_le (List.mem_range.mp hx) s.width_le
    have hy : y < 64 := Nat.lt_of_lt_of_le (List.mem_range.mp hy) s.height_le
    constructor <;> omega
  show s.bare.keepLit ((List.range s.height).flatMap fun y =>
    (List.range s.width).map fun x => (x, y)) = _
  rw [s.keepLit_bare hshown, litPixels, List.filter_flatMap]
  simp only [List.filter_map, Function.comp_def]

/-! ## The window -/

theorem scrollRight_bare (s : Raster) (n : Nat) :
    s.bare.scrollRight n = some (s.scrollRight n).bare := by
  have hn : n % 128 < 128 := Nat.mod_lt _ (by decide)
  have hsum : sum 64 s.left.val 128 = some (s.left.val + 128) := sum_eq_some (by omega)
  have hdifference : difference (s.left.val + 128) (n % 128) =
      some (s.left.val + 128 - n % 128) := difference_eq_some (by omega)
  simp [Screen.scrollRight, bare, scrollRight, hsum, hdifference]

theorem scrollLeft_bare (s : Raster) {n : Nat} (h : s.left.val + n < 2 ^ 64) :
    s.bare.scrollLeft n = some (s.scrollLeft n).bare := by
  simp [Screen.scrollLeft, bare, scrollLeft, sum_eq_some h]

theorem scrollLeft_bare_eq_none (s : Raster) {n : Nat} (h : 2 ^ 64 ≤ s.left.val + n) :
    s.bare.scrollLeft n = none := by
  simp [Screen.scrollLeft, bare, sum_eq_none h]

theorem scrollDown_bare (s : Raster) (n : Nat) :
    s.bare.scrollDown n = some (s.scrollDown n).bare := by
  have hn : n % 64 < 64 := Nat.mod_lt _ (by decide)
  have hsum : sum 64 s.top.val 64 = some (s.top.val + 64) := sum_eq_some (by omega)
  have hdifference : difference (s.top.val + 64) (n % 64) =
      some (s.top.val + 64 - n % 64) := difference_eq_some (by omega)
  simp [Screen.scrollDown, bare, scrollDown, hsum, hdifference]

theorem scrollUp_bare (s : Raster) {n : Nat} (h : s.top.val + n < 2 ^ 64) :
    s.bare.scrollUp n = some (s.scrollUp n).bare := by
  simp [Screen.scrollUp, bare, scrollUp, sum_eq_some h]

theorem scrollUp_bare_eq_none (s : Raster) {n : Nat} (h : 2 ^ 64 ≤ s.top.val + n) :
    s.bare.scrollUp n = none := by
  simp [Screen.scrollUp, bare, sum_eq_none h]

end Raster
end ChipEight
