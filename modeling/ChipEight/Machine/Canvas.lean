import ChipEight.Machine.Raster
import ChipEight.Text.Numeral

/-!
# Canvases

A screen as a display plots it. Rows count downwards on the screen and upwards on a canvas, so a
canvas holds the screen below its axis: the pixel in column `x` and row `y` is plotted at `(x, -y)`.

Coordinates are whole floating-point numbers. They keep their sign apart from their size, because
such a zero has a sign too.
-/

namespace ChipEight

open Text

/-- A whole coordinate with its sign. -/
structure Coordinate where
  negative : Bool
  size : Nat
  deriving DecidableEq, Repr

namespace Coordinate

/-- The coordinate of a count, which is not negative. -/
def ofCount (n : Nat) : Coordinate := ⟨false, n⟩

/-- The coordinate as far on the other side of the axis. -/
def opposite (c : Coordinate) : Coordinate := { c with negative := !c.negative }

/-- A coordinate with one decimal place. -/
def text (c : Coordinate) : String :=
  (if c.negative then "-" else "") ++ String.ofList (decimal c.size) ++ ".0"

theorem opposite_opposite (c : Coordinate) : c.opposite.opposite = c := by
  simp [opposite]

end Coordinate

namespace Raster

/-- The coordinates of the lit pixels, row by row. -/
def canvasPoints (s : Raster) : List (Coordinate × Coordinate) :=
  s.litPixels.map fun p => (.ofCount p.1, (Coordinate.ofCount p.2).opposite)

/-- The leftmost and the rightmost column of a canvas. -/
def columnBounds (s : Raster) : Coordinate × Coordinate := (.ofCount 0, .ofCount (s.width - 1))

/-- The lowest and the highest row of a canvas. -/
def rowBounds (s : Raster) : Coordinate × Coordinate :=
  ((Coordinate.ofCount (s.height - 1)).opposite, .ofCount 0)

/-- A shown row as text, one character to a pixel. -/
def rowText (s : Raster) (y : Nat) : String :=
  String.ofList ((List.range s.width).map fun x => if s.pixel x y then '█' else ' ')

/-- The shown rows as text, from the top. -/
def picture (s : Raster) : String :=
  String.join ((List.range s.height).map fun y => s.rowText y ++ "\n")

end Raster
end ChipEight
