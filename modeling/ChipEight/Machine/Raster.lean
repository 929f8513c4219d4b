/-!
# The screen

The screen keeps 128 by 64 cells. In standard resolution it shows the upper left quarter of them.
In extended resolution it shows all, through a window that wraps around: scrolling moves the
window, not the cells.
-/

namespace ChipEight

/-! ## Resolutions -/

/-- How many pixels are shown. -/
inductive Resolution
  /-- 64 by 32. -/
  | standard
  /-- 128 by 64. -/
  | extended
  deriving DecidableEq, Repr, Inhabited

namespace Resolution

/-- The pixels of a row. -/
def width : Resolution → Nat
  | standard => 64
  | extended => 128

/-- The rows. -/
def height : Resolution → Nat
  | standard => 32
  | extended => 64

theorem width_pos (r : Resolution) : 0 < r.width := by cases r <;> decide

theorem height_pos (r : Resolution) : 0 < r.height := by cases r <;> decide

end Resolution

/-! ## Cells and pixels -/

/-- The cells of the screen, row by row, and the window on them. -/
structure Raster where
  cells : Vector Bool 8192 := Vector.replicate 8192 false
  resolution : Resolution := .standard
  /-- The column of the window's first column. -/
  left : Fin 128 := ⟨0, by decide⟩
  /-- The row of the window's first row. -/
  top : Fin 64 := ⟨0, by decide⟩
  deriving DecidableEq, Inhabited

namespace Raster

/-- A screen with all cells off. -/
def blank : Raster := {}

/-- The pixels of a shown row. -/
def width (s : Raster) : Nat := s.resolution.width

/-- The shown rows. -/
def height (s : Raster) : Nat := s.resolution.height

/-- The column of cells behind a shown column. -/
def column (s : Raster) (x : Nat) : Fin 128 :=
  match s.resolution with
  | .standard => ⟨x % 64, by omega⟩
  | .extended => ⟨(x + s.left.val) % 128, by omega⟩

/-- The row of cells behind a shown row. -/
def row (s : Raster) (y : Nat) : Fin 64 :=
  match s.resolution with
  | .standard => ⟨y % 32, by omega⟩
  | .extended => ⟨(y + s.top.val) % 64, by omega⟩

/-- The cell behind a pixel. Coordinates wrap. -/
def cellOf (s : Raster) (x y : Nat) : Fin 8192 :=
  ⟨(s.row y).val * 128 + (s.column x).val, by omega⟩

/-- Whether a pixel is lit. -/
def pixel (s : Raster) (x y : Nat) : Bool := s.cells[s.cellOf x y]

/-- Flips a pixel; the first part of the result tells whether it was lit. -/
def toggle (s : Raster) (x y : Nat) : Bool × Raster :=
  let i := s.cellOf x y
  let was := s.cells[i]
  (was, { s with cells := s.cells.set i (!was) })

/-- Flips pixels one after another; the first part of the result tells whether one of them was lit
when its turn came. -/
def toggleAll (s : Raster) : List (Nat × Nat) → Bool × Raster
  | [] => (false, s)
  | p :: rest =>
    let (was, s) := s.toggle p.1 p.2
    let (others, s) := s.toggleAll rest
    (was || others, s)

/-- A dark screen with the same window. -/
def clear (s : Raster) : Raster := { s with cells := Vector.replicate 8192 false }

/-- The coordinates of the lit pixels, row by row. -/
def litPixels (s : Raster) : List (Nat × Nat) :=
  (List.range s.height).flatMap fun y =>
    ((List.range s.width).filter fun x => s.pixel x y).map fun x => (x, y)

/-! ## The window -/

/-- Moves the window's corner to a column and a row. Both wrap. -/
def setOffset (s : Raster) (x y : Nat) : Raster :=
  { s with
    left := ⟨x % 128, Nat.mod_lt _ (by decide)⟩
    top := ⟨y % 64, Nat.mod_lt _ (by decide)⟩ }

/-- Moves the picture right. -/
def scrollRight (s : Raster) (n : Nat) : Raster :=
  { s with left := ⟨(s.left.val + 128 - n % 128) % 128, Nat.mod_lt _ (by decide)⟩ }

/-- Moves the picture left. -/
def scrollLeft (s : Raster) (n : Nat) : Raster :=
  { s with left := ⟨(s.left.val + n) % 128, Nat.mod_lt _ (by decide)⟩ }

/-- Moves the picture down. -/
def scrollDown (s : Raster) (n : Nat) : Raster :=
  { s with top := ⟨(s.top.val + 64 - n % 64) % 64, Nat.mod_lt _ (by decide)⟩ }

/-- Moves the picture up. -/
def scrollUp (s : Raster) (n : Nat) : Raster :=
  { s with top := ⟨(s.top.val + n) % 64, Nat.mod_lt _ (by decide)⟩ }

/-! ## Cells by number -/

/-- The cell with a number, if there is one. -/
def cell? (s : Raster) (i : Nat) : Option Bool := s.cells[i]?

/-- The screen with the cell of a number set, if there is one. -/
def setCell? (s : Raster) (i : Nat) (lit : Bool) : Option Raster :=
  if h : i < 8192 then some { s with cells := s.cells.set i lit } else none

end Raster
end ChipEight
