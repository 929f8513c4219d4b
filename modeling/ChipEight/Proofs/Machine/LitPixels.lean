import Mathlib.Data.List.Nodup
import Mathlib.Data.List.FinRange
import ChipEight.Proofs.Machine.Scrolling

/-!
# The lit pixels in order

`Raster.litPixels` goes through the shown pixels row by row, so the pixels that it lists are in a
strict order (`Raster.Precedes`) and none of them is listed twice.

In extended resolution every cell is behind one shown pixel, wherever the window is. So the cells
behind the lit pixels are the lit cells, each once, and there are as many of them
(`Raster.length_litPixels`). A scroll leaves the cells alone and keeps this number; in standard
resolution it changes nothing that is shown.
-/

namespace ChipEight

/-! ## Directions -/

/-- Where a scroll moves the picture. -/
inductive Direction
  | right
  | left
  | down
  | up
  deriving DecidableEq, Repr

def Direction.opposite : Direction → Direction
  | right => left
  | left => right
  | down => up
  | up => down

/-- Moves the picture in a direction. -/
def Raster.scroll (s : Raster) : Direction → Nat → Raster
  | .right => s.scrollRight
  | .left => s.scrollLeft
  | .down => s.scrollDown
  | .up => s.scrollUp

namespace Bare.Screen

/-- A scroll with sums that stop beyond 64 bits. -/
def scroll (s : Screen) : Direction → Nat → Option Screen
  | .right => s.scrollRight
  | .left => s.scrollLeft
  | .down => s.scrollDown
  | .up => s.scrollUp

/-- A scroll with sums that wrap at 64 bits. -/
def scrollWrapped (s : Screen) : Direction → Nat → Screen
  | .right, n => { s with left := ((s.left + 128) % 2 ^ 64 - n % 128) % 128 }
  | .left, n => { s with left := (s.left + n) % 2 ^ 64 % 128 }
  | .down, n => { s with top := ((s.top + 64) % 2 ^ 64 - n % 64) % 64 }
  | .up, n => { s with top := (s.top + n) % 2 ^ 64 % 64 }

end Bare.Screen

namespace Raster

variable {s : Raster} {x y u v : Nat}

/-! ## Order -/

/-- A pixel is in a row further up than another, or further left in the same row. -/
def Precedes (p q : Nat × Nat) : Prop := p.2 < q.2 ∨ p.2 = q.2 ∧ p.1 < q.1

theorem Precedes.ne {p q : Nat × Nat} (h : Precedes p q) : p ≠ q := by
  rintro rfl
  obtain hrow | ⟨-, hcolumn⟩ := h
  · exact Nat.lt_irrefl _ hrow
  · exact Nat.lt_irrefl _ hcolumn

theorem mem_litPixels : (x, y) ∈ s.litPixels ↔ x < s.width ∧ y < s.height ∧ s.pixel x y = true := by
  simp only [litPixels, List.mem_flatMap, List.mem_map, List.mem_filter, List.mem_range,
    Prod.mk.injEq]
  constructor
  · rintro ⟨_, hy, _, ⟨hx, hlit⟩, rfl, rfl⟩
    exact ⟨hx, hy, hlit⟩
  · rintro ⟨hx, hy, hlit⟩
    exact ⟨y, hy, x, ⟨hx, hlit⟩, rfl, rfl⟩

/-- Within a row the columns ascend, and all of a row stands before the next one. -/
theorem pairwise_litPixels (s : Raster) : s.litPixels.Pairwise Precedes := by
  rw [litPixels, List.pairwise_flatMap]
  constructor
  · intro y _
    rw [List.pairwise_map]
    exact (List.pairwise_lt_range.filter _).imp fun hlt => .inr ⟨rfl, hlt⟩
  · refine List.pairwise_lt_range.imp fun hlt p hp q hq => .inl ?_
    obtain ⟨x, -, rfl⟩ := List.mem_map.mp hp
    obtain ⟨u, -, rfl⟩ := List.mem_map.mp hq
    exact hlt

theorem nodup_litPixels (s : Raster) : s.litPixels.Nodup :=
  s.pairwise_litPixels.imp Precedes.ne

/-! ## Number -/

/-- No two shown pixels have the same cell behind them. -/
theorem eq_of_cellOf_eq (hx : x < s.width) (hy : y < s.height) (hu : u < s.width)
    (hv : v < s.height) (h : s.cellOf x y = s.cellOf u v) : (x, y) = (u, v) := by
  obtain ⟨hcolumn, hrow⟩ := (s.cellOf_eq_iff x y u v).mp h
  rw [Nat.mod_eq_of_lt hx, Nat.mod_eq_of_lt hu] at hcolumn
  rw [Nat.mod_eq_of_lt hy, Nat.mod_eq_of_lt hv] at hrow
  rw [hcolumn, hrow]

/-- In extended resolution every cell is behind a shown pixel. -/
theorem exists_cellOf_eq (h : s.resolution = .extended) (i : Fin 8192) :
    ∃ x y, x < s.width ∧ y < s.height ∧ s.cellOf x y = i := by
  have hwidth : s.width = 128 := by rw [width, h]; rfl
  have hheight : s.height = 64 := by rw [height, h]; rfl
  refine ⟨(i.val % 128 + 128 - s.left.val) % 128, (i.val / 128 + 64 - s.top.val) % 64,
    Nat.lt_of_lt_of_eq (Nat.mod_lt _ (by decide)) hwidth.symm,
    Nat.lt_of_lt_of_eq (Nat.mod_lt _ (by decide)) hheight.symm, Fin.ext ?_⟩
  simp only [cellOf, row, column, h]
  omega

/-- The cells behind the lit pixels are the lit cells, each once. -/
theorem map_cellOf_litPixels_perm (h : s.resolution = .extended) :
    (s.litPixels.map fun p => s.cellOf p.1 p.2).Perm
      ((List.finRange 8192).filter s.cells.get) := by
  have hshown : (s.litPixels.map fun p => s.cellOf p.1 p.2).Nodup := by
    refine s.nodup_litPixels.map_on fun p hp q hq heq => ?_
    obtain ⟨hx, hy, -⟩ := mem_litPixels.mp hp
    obtain ⟨hu, hv, -⟩ := mem_litPixels.mp hq
    exact eq_of_cellOf_eq hx hy hu hv heq
  refine (List.perm_ext_iff_of_nodup hshown ((List.nodup_finRange 8192).filter _)).mpr fun i => ?_
  rw [List.mem_map, List.mem_filter, and_iff_right (List.mem_finRange i)]
  constructor
  · rintro ⟨p, hp, rfl⟩
    exact (mem_litPixels.mp hp).2.2
  · intro hlit
    obtain ⟨x, y, hx, hy, rfl⟩ := exists_cellOf_eq h i
    exact ⟨(x, y), mem_litPixels.mpr ⟨hx, hy, hlit⟩, rfl⟩

theorem length_filter_finRange {n : Nat} (cells : Vector Bool n) :
    ((List.finRange n).filter cells.get).length = cells.count true := by
  have hlist : cells.toList = (List.finRange n).map cells.get := by
    apply List.ext_getElem <;> simp [Vector.get]
  rw [← Vector.count_toList, hlist, List.count, List.countP_map, List.countP_eq_length_filter]
  simp [Function.comp_def]

/-- In extended resolution there are as many lit pixels as lit cells, wherever the window is. -/
theorem length_litPixels (h : s.resolution = .extended) :
    s.litPixels.length = s.cells.count true := by
  have hlength := (map_cellOf_litPixels_perm h).length_eq
  rwa [List.length_map, length_filter_finRange] at hlength

/-! ## Scrolls -/

theorem cells_of_scroll (s : Raster) (d : Direction) (n : Nat) :
    (s.scroll d n).cells = s.cells := by
  cases d <;> rfl

theorem resolution_of_scroll (s : Raster) (d : Direction) (n : Nat) :
    (s.scroll d n).resolution = s.resolution := by
  cases d <;> rfl

/-- Scrolling back moves the window to where it was. -/
theorem scroll_opposite (s : Raster) (d : Direction) (n : Nat) :
    (s.scroll d n).scroll d.opposite n = s := by
  obtain ⟨cells, resolution, left, top⟩ := s
  cases d with
  | right =>
    refine congrArg (Raster.mk cells resolution · top) (Fin.ext ?_)
    show ((left.val + 128 - n % 128) % 128 + n) % 128 = left.val
    omega
  | left =>
    refine congrArg (Raster.mk cells resolution · top) (Fin.ext ?_)
    show ((left.val + n) % 128 + 128 - n % 128) % 128 = left.val
    omega
  | down =>
    refine congrArg (Raster.mk cells resolution left) (Fin.ext ?_)
    show ((top.val + 64 - n % 64) % 64 + n) % 64 = top.val
    omega
  | up =>
    refine congrArg (Raster.mk cells resolution left) (Fin.ext ?_)
    show ((top.val + n) % 64 + 64 - n % 64) % 64 = top.val
    omega

/-- A scroll takes the lit pixels elsewhere, and none is lost at an edge. -/
theorem length_litPixels_scroll (s : Raster) (d : Direction) (n : Nat) :
    (s.scroll d n).litPixels.length = s.litPixels.length := by
  have hresolution := s.resolution_of_scroll d n
  have hcells := s.cells_of_scroll d n
  cases h : s.resolution with
  | standard =>
    have hcorner : (s.scroll d n).corner = s.corner := by
      funext x y
      simp only [corner, hcells]
    rw [litPixels_eq_corner (hresolution.trans h), litPixels_eq_corner h, hcorner]
  | extended => rw [length_litPixels (hresolution.trans h), length_litPixels h, hcells]

/-- The sum of a scroll does not fit 64 bits. To the left and up it is that of the window's place
and the distance; the other two directions reduce the distance first. -/
def Overruns (s : Raster) (n : Nat) : Direction → Prop
  | .left => 2 ^ 64 ≤ s.left.val + n
  | .up => 2 ^ 64 ≤ s.top.val + n
  | .right | .down => False

theorem not_overruns_of_lt (s : Raster) (d : Direction) {n : Nat} (h : n < 2 ^ 63) :
    ¬s.Overruns n d := by
  cases d with
  | right | down => exact id
  | left | up => exact Nat.not_le.mpr (by omega)

theorem scroll_bare {d : Direction} {n : Nat} (h : ¬s.Overruns n d) :
    s.bare.scroll d n = some (s.scroll d n).bare := by
  cases d with
  | right => exact s.scrollRight_bare n
  | left => exact s.scrollLeft_bare (Nat.lt_of_not_le h)
  | down => exact s.scrollDown_bare n
  | up => exact s.scrollUp_bare (Nat.lt_of_not_le h)

theorem scroll_bare_eq_none {d : Direction} {n : Nat} (h : s.Overruns n d) :
    s.bare.scroll d n = none := by
  cases d with
  | right | down => exact h.elim
  | left => exact s.scrollLeft_bare_eq_none h
  | up => exact s.scrollUp_bare_eq_none h

/-- The width and the height divide `2 ^ 64`, so a sum that wraps there leads to the same window. -/
theorem scrollWrapped_bare (s : Raster) (d : Direction) (n : Nat) :
    s.bare.scrollWrapped d n = (s.scroll d n).bare := by
  cases d with
  | right =>
    refine congrArg (Bare.Screen.mk _ _ · _) ?_
    show ((s.left.val + 128) % 2 ^ 64 - n % 128) % 128 = (s.left.val + 128 - n % 128) % 128
    omega
  | left =>
    refine congrArg (Bare.Screen.mk _ _ · _) ?_
    show (s.left.val + n) % 2 ^ 64 % 128 = (s.left.val + n) % 128
    omega
  | down =>
    refine congrArg (Bare.Screen.mk _ _ _) ?_
    show ((s.top.val + 64) % 2 ^ 64 - n % 64) % 64 = (s.top.val + 64 - n % 64) % 64
    omega
  | up =>
    refine congrArg (Bare.Screen.mk _ _ _) ?_
    show (s.top.val + n) % 2 ^ 64 % 64 = (s.top.val + n) % 64
    omega

/-- The list holds the shown pixels that are lit, each once, row by row and in a row from the left.
In extended resolution it is as long as there are lit cells. A scroll by any distance keeps its
length, and scrolling back restores it. Over bare storage a scroll stops exactly if its sum does not
fit 64 bits, which takes a distance of `2 ^ 63` at least, and where the sums wrap at 64 bits it
makes no difference. -/
theorem litPixels_in_order (s : Raster) :
    (∀ x y, (x, y) ∈ s.litPixels ↔ x < s.width ∧ y < s.height ∧ s.pixel x y = true) ∧
    s.litPixels.Pairwise Precedes ∧ s.litPixels.Nodup ∧
    s.bare.litPixels = some s.litPixels ∧
    (s.resolution = .extended → s.litPixels.length = s.cells.count true) ∧
    ∀ d n,
      (s.scroll d n).litPixels.length = s.litPixels.length ∧
      ((s.scroll d n).scroll d.opposite n).litPixels = s.litPixels ∧
      s.bare.scrollWrapped d n = (s.scroll d n).bare ∧
      (¬s.Overruns n d → s.bare.scroll d n = some (s.scroll d n).bare) ∧
      (s.Overruns n d → s.bare.scroll d n = none) ∧
      (n < 2 ^ 63 → ¬s.Overruns n d) := by
  refine ⟨fun x y => mem_litPixels, s.pairwise_litPixels, s.nodup_litPixels, s.litPixels_bare,
    length_litPixels, fun d n => ⟨s.length_litPixels_scroll d n, ?_, s.scrollWrapped_bare d n,
      scroll_bare, scroll_bare_eq_none, s.not_overruns_of_lt d⟩⟩
  rw [scroll_opposite]

/-- One lit cell behind a window away from the corner. -/
theorem litPixels_in_order_single :
    let s : Raster := { resolution := .extended, left := 125, top := 2 }
    let t := (s.toggle 3 4).2
    t.litPixels.length = 1 ∧ (t.scroll .right 300).litPixels.length = 1 ∧
      t.bare.scroll .up (2 ^ 63 - 1) = some (t.scroll .up (2 ^ 63 - 1)).bare ∧
      t.bare.scroll .up (2 ^ 64 - 1) = none := by
  intro s t
  have hcount : t.cells.count true = 1 := by
    show ((Vector.replicate 8192 false).set _ _).count true = 1
    simp [s, Vector.count_set, Vector.count_replicate]
  obtain ⟨-, -, -, -, hlength, hscroll⟩ := litPixels_in_order t
  have hone : t.litPixels.length = 1 := (hlength rfl).trans hcount
  obtain ⟨-, -, -, hgoes, -, hsmall⟩ := hscroll .up (2 ^ 63 - 1)
  obtain ⟨-, -, -, -, hstops, -⟩ := hscroll .up (2 ^ 64 - 1)
  have hoverruns : t.Overruns (2 ^ 64 - 1) .up := by
    show 2 ^ 64 ≤ 2 + (2 ^ 64 - 1)
    decide
  exact ⟨hone, (hscroll .right 300).1.trans hone, hgoes (hsmall (by decide)), hstops hoverruns⟩

end Raster
end ChipEight
