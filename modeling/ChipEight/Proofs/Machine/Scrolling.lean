import ChipEight.Proofs.Bare.Screen

/-!
# Scrolling moves the picture

A screen scrolls by moving its window and leaves its cells alone. A `Grid` is what it stands for: a
picture whose pixels themselves move when it is scrolled, and come in again at the other edge.

## The relation

`Raster.grid` is the picture that a screen shows in extended resolution. Each action on the screen
gives the answer that it gives on this picture, and what the screen shows afterwards is the picture
after the same action. So a screen and its picture cannot be told apart by any sequence of actions.
-/

namespace ChipEight

/-! ## Pictures that move -/

/-- A picture of 128 by 64 pixels. -/
structure Grid where
  lit : Fin 128 → Fin 64 → Bool

namespace Grid

/-- Whether a pixel is lit. Coordinates wrap. -/
def pixel (g : Grid) (x y : Nat) : Bool := g.lit (Fin.ofNat 128 x) (Fin.ofNat 64 y)

/-- Flips a pixel; the first part of the result tells whether it was lit. -/
def toggle (g : Grid) (x y : Nat) : Bool × Grid :=
  (g.pixel x y, { lit := fun c r =>
    if c = Fin.ofNat 128 x ∧ r = Fin.ofNat 64 y then !g.lit c r else g.lit c r })

def clear : Grid := { lit := fun _ _ => false }

/-- Every pixel moves right: where it is now is what was `n` columns further left. -/
def scrollRight (g : Grid) (n : Nat) : Grid := { lit := fun c r => g.lit (c - Fin.ofNat 128 n) r }

def scrollLeft (g : Grid) (n : Nat) : Grid := { lit := fun c r => g.lit (c + Fin.ofNat 128 n) r }

def scrollDown (g : Grid) (n : Nat) : Grid := { lit := fun c r => g.lit c (r - Fin.ofNat 64 n) }

def scrollUp (g : Grid) (n : Nat) : Grid := { lit := fun c r => g.lit c (r + Fin.ofNat 64 n) }

/-- The coordinates of the lit pixels, row by row. -/
def litPixels (g : Grid) : List (Nat × Nat) :=
  (List.range 64).flatMap fun y =>
    ((List.range 128).filter fun x => g.pixel x y).map fun x => (x, y)

theorem ext {g k : Grid} (h : ∀ c r, g.lit c r = k.lit c r) : g = k := by
  cases g
  cases k
  simp only [mk.injEq]
  funext c r
  exact h c r

theorem pixel_scrollRight (g : Grid) (n x y : Nat) :
    (g.scrollRight n).pixel (x + n) y = g.pixel x y := by
  have hcolumn : Fin.ofNat 128 (x + n) - Fin.ofNat 128 n = Fin.ofNat 128 x := by
    refine Fin.ext ?_
    rw [Fin.val_sub, Fin.val_ofNat, Fin.val_ofNat, Fin.val_ofNat]
    omega
  show g.lit (Fin.ofNat 128 (x + n) - Fin.ofNat 128 n) _ = _
  rw [hcolumn]
  rfl

theorem pixel_scrollDown (g : Grid) (n x y : Nat) :
    (g.scrollDown n).pixel x (y + n) = g.pixel x y := by
  have hrow : Fin.ofNat 64 (y + n) - Fin.ofNat 64 n = Fin.ofNat 64 y := by
    refine Fin.ext ?_
    rw [Fin.val_sub, Fin.val_ofNat, Fin.val_ofNat, Fin.val_ofNat]
    omega
  show g.lit _ (Fin.ofNat 64 (y + n) - Fin.ofNat 64 n) = _
  rw [hrow]
  rfl

/-- Scrolling back undoes a scroll. -/
theorem scroll_back (g : Grid) (n : Nat) :
    (g.scrollRight n).scrollLeft n = g ∧ (g.scrollDown n).scrollUp n = g := by
  constructor
  · refine ext fun c r => ?_
    have hcolumn : c + Fin.ofNat 128 n - Fin.ofNat 128 n = c := by
      refine Fin.ext ?_
      rw [Fin.val_sub, Fin.val_add, Fin.val_ofNat]
      omega
    exact congrArg (g.lit · r) hcolumn
  · refine ext fun c r => ?_
    have hrow : r + Fin.ofNat 64 n - Fin.ofNat 64 n = r := by
      refine Fin.ext ?_
      rw [Fin.val_sub, Fin.val_add, Fin.val_ofNat]
      omega
    exact congrArg (g.lit c) hrow

end Grid

/-! ## Actions -/

/-- What is done to a screen, or asked of it. -/
inductive ScreenAction
  | toggle (x y : Nat)
  | pixel (x y : Nat)
  | clear
  | scrollRight (n : Nat)
  | scrollLeft (n : Nat)
  | scrollDown (n : Nat)
  | scrollUp (n : Nat)

namespace ScreenAction

/-- Whether an action is a scroll. -/
def isScroll : ScreenAction → Bool
  | scrollRight _ | scrollLeft _ | scrollDown _ | scrollUp _ => true
  | toggle _ _ | pixel _ _ | clear => false

/-- All coordinates and distances of an action are below a bound. -/
def Below (bound : Nat) : ScreenAction → Prop
  | toggle x y | pixel x y => x < bound ∧ y < bound
  | clear => True
  | scrollRight n | scrollLeft n | scrollDown n | scrollUp n => n < bound

end ScreenAction

/-- What is seen of a screen at one point: the lit pixels, and the answer of the next action. -/
structure Sight where
  litPixels : List (Nat × Nat)
  answer : Option Bool
  deriving DecidableEq, Repr

def Grid.act (g : Grid) : ScreenAction → Option Bool × Grid
  | .toggle x y => ((g.toggle x y).1, (g.toggle x y).2)
  | .pixel x y => (g.pixel x y, g)
  | .clear => (none, .clear)
  | .scrollRight n => (none, g.scrollRight n)
  | .scrollLeft n => (none, g.scrollLeft n)
  | .scrollDown n => (none, g.scrollDown n)
  | .scrollUp n => (none, g.scrollUp n)

/-- What is seen of a picture before each of some actions and after the last. -/
def Grid.trace (g : Grid) : List ScreenAction → List Sight
  | [] => [{ litPixels := g.litPixels, answer := none }]
  | a :: rest => { litPixels := g.litPixels, answer := (g.act a).1 } :: (g.act a).2.trace rest

/-- The answer of an action on a screen, and the screen after it. -/
def Raster.act (s : Raster) : ScreenAction → Option Bool × Raster
  | .toggle x y => ((s.toggle x y).1, (s.toggle x y).2)
  | .pixel x y => (s.pixel x y, s)
  | .clear => (none, s.clear)
  | .scrollRight n => (none, s.scrollRight n)
  | .scrollLeft n => (none, s.scrollLeft n)
  | .scrollDown n => (none, s.scrollDown n)
  | .scrollUp n => (none, s.scrollUp n)

/-- What is seen of a screen before each of some actions and after the last. -/
def Raster.trace (s : Raster) : List ScreenAction → List Sight
  | [] => [{ litPixels := s.litPixels, answer := none }]
  | a :: rest => { litPixels := s.litPixels, answer := (s.act a).1 } :: (s.act a).2.trace rest

def Raster.after (s : Raster) (actions : List ScreenAction) : Raster :=
  actions.foldl (fun s a => (s.act a).2) s

namespace Bare.Screen

def act (s : Screen) : ScreenAction → Option (Option Bool × Screen)
  | .toggle x y => do
    let (was, s) ← s.toggle x y
    pure (was, s)
  | .pixel x y => do pure (← s.pixel x y, s)
  | .clear => pure (none, s.clear)
  | .scrollRight n => do pure (none, ← s.scrollRight n)
  | .scrollLeft n => do pure (none, ← s.scrollLeft n)
  | .scrollDown n => do pure (none, ← s.scrollDown n)
  | .scrollUp n => do pure (none, ← s.scrollUp n)

def trace (s : Screen) : List ScreenAction → Option (List Sight)
  | [] => do pure [{ litPixels := ← s.litPixels, answer := none }]
  | a :: rest => do
    let litPixels ← s.litPixels
    let (answer, s) ← s.act a
    pure ({ litPixels, answer } :: (← s.trace rest))

end Bare.Screen

/-! ## The picture of a screen -/

namespace Raster

/-- The cells of a screen, as its window shows them in extended resolution. -/
def grid (s : Raster) : Grid where
  lit := fun c r => s.cells[(⟨(r + s.top).val * 128 + (c + s.left).val, by omega⟩ : Fin 8192)]

theorem lit_grid {s : Raster} (h : s.resolution = .extended) (c : Fin 128) (r : Fin 64) :
    s.grid.lit c r = s.pixel c.val r.val := by
  simp [grid, pixel, cellOf, row, column, h, Fin.val_add]

theorem pixel_eq {s : Raster} (h : s.resolution = .extended) (x y : Nat) :
    s.pixel x y =
      s.cells[(⟨(y + s.top.val) % 64 * 128 + (x + s.left.val) % 128, by omega⟩ : Fin 8192)] := by
  simp [pixel, cellOf, row, column, h]

theorem pixel_grid {s : Raster} (h : s.resolution = .extended) (x y : Nat) :
    s.grid.pixel x y = s.pixel x y := by
  rw [Grid.pixel, lit_grid h, pixel_eq h, pixel_eq h]
  simp only [Fin.val_ofNat, Nat.mod_add_mod]

theorem toggle_grid {s : Raster} (h : s.resolution = .extended) (x y : Nat) :
    (s.toggle x y).1 = (s.grid.toggle x y).1 ∧ (s.toggle x y).2.grid = (s.grid.toggle x y).2 := by
  refine ⟨(pixel_grid h x y).symm, Grid.ext ?_⟩
  intro c r
  -- A pixel of the picture changes exactly if the flipped cell is the one behind it.
  have hcell : s.cellOf c.val r.val = s.cellOf x y ↔ c = Fin.ofNat 128 x ∧ r = Fin.ofNat 64 y := by
    have hcolumn : c.val % 128 = c.val := Nat.mod_eq_of_lt c.isLt
    have hrow : r.val % 64 = r.val := Nat.mod_eq_of_lt r.isLt
    rw [cellOf_eq_iff, width, height, h, Fin.ext_iff, Fin.ext_iff]
    show c.val % 128 = x % 128 ∧ r.val % 64 = y % 64 ↔ _
    rw [hcolumn, hrow]
    rfl
  have hgrid : (s.grid.toggle x y).2.lit c r = if c = Fin.ofNat 128 x ∧ r = Fin.ofNat 64 y then
      !s.pixel c.val r.val else s.pixel c.val r.val := by
    rw [← lit_grid h]
    rfl
  rw [hgrid, lit_grid (s := (s.toggle x y).2) h]
  show (s.cells.set (s.cellOf x y).val (!s.cells[s.cellOf x y]))[s.cellOf c.val r.val] = _
  by_cases heq : s.cellOf c.val r.val = s.cellOf x y
  · have hpixel : s.pixel c.val r.val = s.cells[s.cellOf x y] := by simp only [pixel, heq]
    rw [if_pos (hcell.mp heq), hpixel]
    simp only [heq]
    exact Vector.getElem_set_self _
  · rw [if_neg (mt hcell.mpr heq)]
    exact Vector.getElem_set_ne _ _ fun hval => heq (Fin.ext hval.symm)

theorem clear_grid (s : Raster) : s.clear.grid = Grid.clear := by
  refine Grid.ext fun c r => ?_
  exact Vector.getElem_replicate _

/-- Screens with the same cells show the same pixel where their windows have it. -/
theorem lit_of_window {s t : Raster} (hcells : t.cells = s.cells) {c d : Fin 128} {r q : Fin 64}
    (hcolumn : c + t.left = d + s.left) (hrow : r + t.top = q + s.top) :
    t.grid.lit c r = s.grid.lit d q := by
  simp only [grid, hcells, hcolumn, hrow]

theorem scrollRight_grid (s : Raster) (n : Nat) :
    (s.scrollRight n).grid = s.grid.scrollRight n := by
  refine Grid.ext fun c r => ?_
  show (s.scrollRight n).grid.lit c r = s.grid.lit (c - Fin.ofNat 128 n) r
  refine lit_of_window ?_ ?_ ?_
  · rfl
  · -- The window moves left, so what it shows in a column was `n` columns further left.
    refine Fin.ext ?_
    show (c.val + (s.left.val + 128 - n % 128) % 128) % 128 =
      ((c - Fin.ofNat 128 n).val + s.left.val) % 128
    rw [Fin.val_sub, Fin.val_ofNat]
    omega
  · rfl

theorem scrollLeft_grid (s : Raster) (n : Nat) :
    (s.scrollLeft n).grid = s.grid.scrollLeft n := by
  refine Grid.ext fun c r => ?_
  show (s.scrollLeft n).grid.lit c r = s.grid.lit (c + Fin.ofNat 128 n) r
  refine lit_of_window ?_ ?_ ?_
  · rfl
  · refine Fin.ext ?_
    show (c.val + (s.left.val + n) % 128) % 128 = ((c + Fin.ofNat 128 n).val + s.left.val) % 128
    rw [Fin.val_add, Fin.val_ofNat]
    omega
  · rfl

theorem scrollDown_grid (s : Raster) (n : Nat) :
    (s.scrollDown n).grid = s.grid.scrollDown n := by
  refine Grid.ext fun c r => ?_
  show (s.scrollDown n).grid.lit c r = s.grid.lit c (r - Fin.ofNat 64 n)
  refine lit_of_window ?_ ?_ ?_
  · rfl
  · rfl
  · refine Fin.ext ?_
    show (r.val + (s.top.val + 64 - n % 64) % 64) % 64 =
      ((r - Fin.ofNat 64 n).val + s.top.val) % 64
    rw [Fin.val_sub, Fin.val_ofNat]
    omega

theorem scrollUp_grid (s : Raster) (n : Nat) :
    (s.scrollUp n).grid = s.grid.scrollUp n := by
  refine Grid.ext fun c r => ?_
  show (s.scrollUp n).grid.lit c r = s.grid.lit c (r + Fin.ofNat 64 n)
  refine lit_of_window ?_ ?_ ?_
  · rfl
  · rfl
  · refine Fin.ext ?_
    show (r.val + (s.top.val + n) % 64) % 64 = ((r + Fin.ofNat 64 n).val + s.top.val) % 64
    rw [Fin.val_add, Fin.val_ofNat]
    omega

theorem litPixels_grid {s : Raster} (h : s.resolution = .extended) :
    s.grid.litPixels = s.litPixels := by
  simp only [Grid.litPixels, litPixels, pixel_grid h, width, height, h]
  rfl

/-! ## Runs in extended resolution -/

theorem resolution_act (s : Raster) (a : ScreenAction) :
    (s.act a).2.resolution = s.resolution := by
  cases a <;> rfl

/-- An action does to the picture what it does to the screen. -/
theorem act_grid {s : Raster} (h : s.resolution = .extended) (a : ScreenAction) :
    (s.act a).1 = (s.grid.act a).1 ∧ (s.act a).2.grid = (s.grid.act a).2 := by
  cases a
  case toggle x y =>
    obtain ⟨hanswer, hgrid⟩ := toggle_grid h x y
    exact ⟨congrArg some hanswer, hgrid⟩
  case pixel x y => exact ⟨congrArg some (pixel_grid h x y).symm, rfl⟩
  case clear => exact ⟨rfl, s.clear_grid⟩
  case scrollRight n => exact ⟨rfl, s.scrollRight_grid n⟩
  case scrollLeft n => exact ⟨rfl, s.scrollLeft_grid n⟩
  case scrollDown n => exact ⟨rfl, s.scrollDown_grid n⟩
  case scrollUp n => exact ⟨rfl, s.scrollUp_grid n⟩

/-- A screen in extended resolution and its picture look the same at every point of a run. -/
theorem trace_grid {s : Raster} (h : s.resolution = .extended) (actions : List ScreenAction) :
    s.trace actions = s.grid.trace actions := by
  -- The screen changes along the run; that it is extended is what the steps keep.
  induction actions generalizing s with
  | nil => rw [trace, Grid.trace, litPixels_grid h]
  | cons a rest ih =>
    obtain ⟨hanswer, hgrid⟩ := act_grid h a
    have hnext : (s.act a).2.resolution = .extended := (s.resolution_act a).trans h
    rw [trace, Grid.trace, litPixels_grid h, hanswer, ih hnext, hgrid]

/-! ## Runs over bare storage -/

/-- An action over bare storage stops on no screen, if its arguments are small. -/
theorem act_bare (s : Raster) {a : ScreenAction} (ha : a.Below (2 ^ 63)) :
    s.bare.act a = some ((s.act a).1, (s.act a).2.bare) := by
  cases a
  case toggle x y =>
    rw [Bare.Screen.act, s.toggle_bare ha.1 ha.2]
    rfl
  case pixel x y =>
    rw [Bare.Screen.act, s.pixel_bare ha.1 ha.2]
    rfl
  case clear =>
    rw [Bare.Screen.act, s.clear_bare]
    rfl
  case scrollRight n =>
    rw [Bare.Screen.act, s.scrollRight_bare]
    rfl
  case scrollLeft n =>
    have hsum : s.left.val + n < 2 ^ 64 := by
      have hn : n < 2 ^ 63 := ha
      omega
    rw [Bare.Screen.act, s.scrollLeft_bare hsum]
    rfl
  case scrollDown n =>
    rw [Bare.Screen.act, s.scrollDown_bare]
    rfl
  case scrollUp n =>
    have hsum : s.top.val + n < 2 ^ 64 := by
      have hn : n < 2 ^ 63 := ha
      omega
    rw [Bare.Screen.act, s.scrollUp_bare hsum]
    rfl

theorem trace_bare (s : Raster) {actions : List ScreenAction}
    (h : ∀ a ∈ actions, a.Below (2 ^ 63)) : s.bare.trace actions = some (s.trace actions) := by
  induction actions generalizing s with
  | nil =>
    rw [Bare.Screen.trace, s.litPixels_bare]
    rfl
  | cons a rest ih =>
    have hrest : ∀ b ∈ rest, b.Below (2 ^ 63) := fun b hb => h b (List.mem_cons_of_mem a hb)
    rw [Bare.Screen.trace, s.litPixels_bare]
    show (s.bare.act a >>= fun p => _) = _
    rw [s.act_bare (h a List.mem_cons_self)]
    show ((s.act a).2.bare.trace rest >>= fun later => _) = _
    rw [ih _ hrest]
    rfl

/-! ## Standard resolution -/

/-- The cells of the upper left quarter, as the picture of 64 by 32 pixels that they are. -/
def corner (s : Raster) (x y : Nat) : Bool :=
  s.cells[(⟨y % 32 * 128 + x % 64, by omega⟩ : Fin 8192)]

theorem pixel_eq_corner {s : Raster} (h : s.resolution = .standard) (x y : Nat) :
    s.pixel x y = s.corner x y := by
  simp [pixel, corner, cellOf, row, column, h]

theorem litPixels_eq_corner {s : Raster} (h : s.resolution = .standard) :
    s.litPixels = (List.range 32).flatMap fun y =>
      ((List.range 64).filter fun x => s.corner x y).map fun x => (x, y) := by
  simp only [litPixels, pixel_eq_corner h, width, height, h]
  rfl

theorem cells_scroll (s : Raster) {a : ScreenAction} (h : a.isScroll = true) :
    (s.act a).2.cells = s.cells := by
  cases a <;> first | rfl | simp [ScreenAction.isScroll] at h

/-- Scrolls leave all cells alone. -/
theorem cells_scrolls (s : Raster) {actions : List ScreenAction}
    (h : ∀ a ∈ actions, a.isScroll = true) :
    (s.after actions).cells = s.cells ∧ (s.after actions).resolution = s.resolution := by
  induction actions generalizing s with
  | nil => exact ⟨rfl, rfl⟩
  | cons a rest ih =>
    obtain ⟨hcells, hresolution⟩ := ih (s.act a).2 fun b hb => h b (List.mem_cons_of_mem a hb)
    refine ⟨hcells.trans (s.cells_scroll (h a List.mem_cons_self)), ?_⟩
    exact hresolution.trans (s.resolution_act a)

/-- In standard resolution scrolls change nothing that is seen. -/
theorem pixel_scrolls {s : Raster} (h : s.resolution = .standard) {actions : List ScreenAction}
    (hscroll : ∀ a ∈ actions, a.isScroll = true) :
    (s.after actions).pixel = s.pixel ∧ (s.after actions).litPixels = s.litPixels := by
  obtain ⟨hcells, hresolution⟩ := s.cells_scrolls hscroll
  have hafter : (s.after actions).resolution = .standard := hresolution.trans h
  have hcorner : (s.after actions).corner = s.corner := by
    funext x y
    simp only [corner, hcells]
  constructor
  · funext x y
    rw [pixel_eq_corner hafter, pixel_eq_corner h, hcorner]
  · rw [litPixels_eq_corner hafter, litPixels_eq_corner h, hcorner]

/-! ## Both resolutions -/

/-- In extended resolution a screen is at every point of a run what its picture is when the pixels
themselves move; nothing overflows on the way while arguments have 63 bits. In standard resolution
it shows its upper left quarter, and scrolls change nothing. -/
theorem trace_grid_and_pixel_corner (s : Raster) (actions : List ScreenAction) :
    (s.resolution = .extended →
      s.trace actions = s.grid.trace actions ∧
      ((∀ a ∈ actions, a.Below (2 ^ 63)) →
        s.bare.trace actions = some (s.grid.trace actions))) ∧
    (s.resolution = .standard →
      s.pixel = s.corner ∧
      s.litPixels = ((List.range 32).flatMap fun y =>
        ((List.range 64).filter fun x => s.corner x y).map fun x => (x, y)) ∧
      ((∀ a ∈ actions, a.isScroll = true) →
        (s.after actions).pixel = s.pixel ∧ (s.after actions).litPixels = s.litPixels)) := by
  constructor
  · intro h
    refine ⟨trace_grid h actions, ?_⟩
    intro hbelow
    rw [s.trace_bare hbelow, trace_grid h]
  · intro h
    have hpixel : s.pixel = s.corner := by
      funext x y
      exact pixel_eq_corner h x y
    exact ⟨hpixel, litPixels_eq_corner h, fun hscroll => pixel_scrolls h hscroll⟩

/-- A run from a window away from the corner, with scrolls beyond the width and the height, and the
same distances in standard resolution. -/
theorem trace_grid_and_pixel_corner_far :
    let s : Raster := { resolution := .extended, left := 125, top := 2 }
    let t : Raster := { left := 125, top := 2 }
    s.bare.trace [.toggle 3 4, .scrollRight 300, .pixel 47 4, .scrollUp (2 ^ 63 - 1)] =
        some (s.grid.trace [.toggle 3 4, .scrollRight 300, .pixel 47 4, .scrollUp (2 ^ 63 - 1)]) ∧
      (t.after [.scrollRight 300, .scrollUp (2 ^ 63 - 1)]).pixel = t.pixel := by
  intro s t
  refine ⟨((trace_grid_and_pixel_corner s _).1 rfl).2 ?_,
    (((trace_grid_and_pixel_corner t _).2 rfl).2.2 ?_).1⟩
  · simp [ScreenAction.Below]
  · simp [ScreenAction.isScroll]

end Raster
end ChipEight
