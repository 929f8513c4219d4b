import ChipEight.Machine.State

/-!
# Sprites

A sprite is a picture in memory: sixteen rows of a word, or up to fifteen rows of a byte. Drawing
it flips the pixels under its set bits. The flag register then tells whether a lit pixel was put
out.
-/

namespace ChipEight

namespace Sprite

/-! ## The picture -/

/-- The rows of the sprite at the index register, each as a word whose high bit is leftmost. No
rows at all stand for sixteen wide ones, in extended resolution. -/
def rows (m : Machine) (n : Fin 16) : List UInt16 :=
  if n.val = 0 ∧ m.screen.resolution = .extended then
    (List.range 16).map fun r => m.ram.word (m.index + UInt16.ofNat (2 * r))
  else
    (List.range n.val).map fun r => joinBytes (m.ram.read (m.index + UInt16.ofNat r)) 0

/-- The columns of the set bits of a row. -/
def columns (bits : UInt16) : List Nat :=
  (List.range 16).filter fun c => bits.toNat.testBit (15 - c)

/-- The column and row of every set bit, row by row. -/
def dots (rows : List UInt16) : List (Nat × Nat) :=
  rows.zipIdx.flatMap fun (bits, r) => (columns bits).map fun c => (c, r)

/-! ## Its place -/

/-- The pixels under the dots of a sprite whose corner is at a column and a row. Dots beyond the
edge are clipped, or wrap. -/
def targets (clip : Bool) (width height x y : Nat) (dots : List (Nat × Nat)) :
    List (Nat × Nat) :=
  let placed := dots.map fun (c, r) => (x + c, y + r)
  let shown := if clip then placed.filter fun p => p.1 < width && p.2 < height else placed
  shown.map fun p => (p.1 % width, p.2 % height)

end Sprite

/-- The pixels that drawing a sprite at the coordinates in two registers flips. -/
def Machine.spriteTargets (m : Machine) (x y : Fin 16) (n : Fin 16) : List (Nat × Nat) :=
  let width := m.screen.width
  let height := m.screen.height
  Sprite.targets m.switches.clipSprites width height ((m.register x).toNat % width)
    ((m.register y).toNat % height) (Sprite.dots (Sprite.rows m n))

/-- Draws a sprite at the coordinates in two registers. -/
def Machine.drawSprite (m : Machine) (x y : Fin 16) (n : Fin 16) : Machine :=
  let (collided, screen) := m.screen.toggleAll (m.spriteTargets x y n)
  { m.setRegister flagRegister (if collided then 1 else 0) with screen, redraw := true }

end ChipEight
