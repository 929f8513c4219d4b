import Mathlib.Data.List.Flatten
import Mathlib.Data.List.Nodup
import Mathlib.Data.Nat.ModEq
import ChipEight.Proofs.Bare.Sprites
import ChipEight.Proofs.Machine.Footprint

/-!
# What drawing a sprite does

A sprite is drawn pixel by pixel, and the flag gathers what each pixel was when its turn came. But
no pixel has two turns within one sprite, since a sprite is no larger than the screen that it wraps
around. So the drawing can be told from the machine before it: `execute_drawing`.
-/

namespace ChipEight

/-! ## Flipping pixels -/

/-- One flip more, or none. -/
theorem decide_odd_add_ite (n : Nat) (flip : Bool) :
    decide ((n + if flip then 1 else 0) % 2 = 1) = (flip ^^ decide (n % 2 = 1)) := by
  cases flip with
  | false => rw [Bool.false_xor]; rfl
  | true =>
    have hparity : (n + 1) % 2 = 1 ↔ ¬n % 2 = 1 := by omega
    rw [Bool.true_xor, ← decide_not]
    exact decide_eq_decide.mpr hparity

namespace Raster

/-- The cells behind some pixels. -/
def cellsOf (s : Raster) (ps : List (Nat × Nat)) : List (Fin 8192) :=
  ps.map fun p => s.cellOf p.1 p.2

theorem cellsOf_cons (s : Raster) (p : Nat × Nat) (ps : List (Nat × Nat)) :
    s.cellsOf (p :: ps) = s.cellOf p.1 p.2 :: s.cellsOf ps := rfl

theorem toggleAll_snd (s : Raster) (ps : List (Nat × Nat)) :
    (s.toggleAll ps).2 = { s with cells := (s.toggleAll ps).2.cells } := by
  induction ps generalizing s with
  | nil => rfl
  | cons p ps ih =>
    rw [toggleAll_cons]
    exact ih (s.toggle p.1 p.2).2

theorem get_toggle (s : Raster) (x y : Nat) (i : Fin 8192) :
    (s.toggle x y).2.cells.get i = (s.cells.get i ^^ decide (s.cellOf x y = i)) := by
  show (s.cells.set (s.cellOf x y).val (!s.cells.get (s.cellOf x y))).get i = _
  by_cases heq : s.cellOf x y = i
  · subst heq
    rw [decide_eq_true rfl, Bool.xor_true]
    exact Vector.getElem_set_self _
  · rw [decide_eq_false heq, Bool.xor_false]
    exact Vector.getElem_set_ne _ _ fun hval => heq (Fin.ext hval)

/-- What a cell is after some flips, by the number of flips that were its own. -/
theorem get_toggleAll (s : Raster) (ps : List (Nat × Nat)) (i : Fin 8192) :
    (s.toggleAll ps).2.cells.get i =
      (s.cells.get i ^^ decide ((s.cellsOf ps).count i % 2 = 1)) := by
  induction ps generalizing s with
  | nil => simp [toggleAll, cellsOf]
  | cons p ps ih =>
    have hcells : (s.toggle p.1 p.2).2.cellsOf ps = s.cellsOf ps := rfl
    rw [toggleAll_cons, ih, hcells, get_toggle, cellsOf_cons, List.count_cons, Bool.xor_assoc,
      decide_odd_add_ite]
    rfl

theorem get_toggleAll_of_mem {s : Raster} {ps : List (Nat × Nat)} (h : (s.cellsOf ps).Nodup)
    {i : Fin 8192} (hi : i ∈ s.cellsOf ps) : (s.toggleAll ps).2.cells.get i = !s.cells.get i := by
  rw [get_toggleAll, List.count_eq_one_of_mem h hi]
  exact Bool.xor_true _

theorem get_toggleAll_of_not_mem {s : Raster} {ps : List (Nat × Nat)} {i : Fin 8192}
    (hi : i ∉ s.cellsOf ps) : (s.toggleAll ps).2.cells.get i = s.cells.get i := by
  rw [get_toggleAll, List.count_eq_zero_of_not_mem hi]
  exact Bool.xor_false _

/-- Flips of different cells find each pixel as it was before the first flip. -/
theorem toggleAll_fst_of_nodup {s : Raster} {ps : List (Nat × Nat)} (h : (s.cellsOf ps).Nodup) :
    (s.toggleAll ps).1 = true ↔ ∃ p ∈ ps, s.pixel p.1 p.2 = true := by
  induction ps generalizing s with
  | nil => simp [toggleAll]
  | cons p ps ih =>
    rw [cellsOf_cons, List.nodup_cons] at h
    obtain ⟨hfirst, hrest⟩ := h
    have hlater : ((s.toggle p.1 p.2).2.toggleAll ps).1 = true ↔
        ∃ q ∈ ps, s.pixel q.1 q.2 = true := by
      rw [ih (s := (s.toggle p.1 p.2).2) hrest]
      refine exists_congr fun q => and_congr_right fun hq => ?_
      have hne : s.cellOf p.1 p.2 ≠ s.cellOf q.1 q.2 :=
        fun heq => hfirst (heq ▸ List.mem_map_of_mem hq)
      show (s.toggle p.1 p.2).2.cells.get (s.cellOf q.1 q.2) = true ↔ _
      rw [get_toggle, decide_eq_false hne, Bool.xor_false]
      rfl
    rw [toggleAll_cons, Bool.or_eq_true, hlater, List.exists_mem_cons_iff]
    rfl

/-- Different shown pixels are different cells. -/
theorem cellOf_inj {s : Raster} {x y u v : Nat} (hx : x < s.width) (hy : y < s.height)
    (hu : u < s.width) (hv : v < s.height) :
    s.cellOf x y = s.cellOf u v ↔ x = u ∧ y = v := by
  rw [cellOf_eq_iff, Nat.mod_eq_of_lt hx, Nat.mod_eq_of_lt hy, Nat.mod_eq_of_lt hu,
    Nat.mod_eq_of_lt hv]

theorem nodup_cellsOf {s : Raster} {ps : List (Nat × Nat)} (h : ps.Nodup)
    (hshown : ∀ p ∈ ps, p.1 < s.width ∧ p.2 < s.height) : (s.cellsOf ps).Nodup := by
  refine List.Nodup.map_on ?_ h
  intro p hp q hq heq
  obtain ⟨hx, hy⟩ := hshown p hp
  obtain ⟨hu, hv⟩ := hshown q hq
  exact Prod.ext_iff.mpr ((cellOf_inj hx hy hu hv).mp heq)

theorem cellOf_mem_cellsOf_iff {s : Raster} {ps : List (Nat × Nat)} {x y : Nat}
    (hx : x < s.width) (hy : y < s.height)
    (hshown : ∀ p ∈ ps, p.1 < s.width ∧ p.2 < s.height) :
    s.cellOf x y ∈ s.cellsOf ps ↔ (x, y) ∈ ps := by
  constructor
  · intro h
    obtain ⟨p, hp, heq⟩ := List.mem_map.mp h
    obtain ⟨hu, hv⟩ := hshown p hp
    obtain ⟨rfl, rfl⟩ := (cellOf_inj hu hv hx hy).mp heq
    exact hp
  · exact fun h => List.mem_map.mpr ⟨_, h, rfl⟩

end Raster

/-! ## Dots and targets -/

namespace Sprite

theorem mem_dots_iff (f : Nat → UInt16) (n r c : Nat) :
    (c, r) ∈ dots ((List.range n).map f) ↔
      r < n ∧ c < 16 ∧ (f r).toNat.testBit (15 - c) = true := by
  rw [dots_map_range]
  simp [columns]

theorem nodup_dots (f : Nat → UInt16) (n : Nat) : (dots ((List.range n).map f)).Nodup := by
  rw [dots_map_range, List.nodup_flatMap]
  constructor
  · intro r _
    refine List.Nodup.map (fun c d h => congrArg Prod.fst h) ?_
    exact List.nodup_range.filter _
  · refine List.nodup_range.imp fun hne => ?_
    rintro ⟨c, r⟩ hfirst hsecond
    obtain ⟨_, _, hr⟩ := List.mem_map.mp hfirst
    obtain ⟨_, _, hs⟩ := List.mem_map.mp hsecond
    exact hne ((congrArg Prod.snd hr).trans (congrArg Prod.snd hs).symm)

variable {clip : Bool} {width height x y : Nat} {ds : List (Nat × Nat)}

theorem mem_targets_iff {p : Nat × Nat} :
    p ∈ targets clip width height x y ds ↔
      ∃ d ∈ ds, (clip = true → x + d.1 < width ∧ y + d.2 < height) ∧
        ((x + d.1) % width, (y + d.2) % height) = p := by
  cases clip <;> simp [targets, and_assoc]

theorem targets_sublist :
    (targets clip width height x y ds).Sublist
      (ds.map fun d => ((x + d.1) % width, (y + d.2) % height)) := by
  cases clip with
  | false => simp [targets, Function.comp_def]
  | true =>
    rw [targets, if_pos rfl]
    have hshown := (List.filter_sublist (p := fun p => decide (p.1 < width ∧ p.2 < height))
      (l := ds.map fun d => (x + d.1, y + d.2))).map fun p => (p.1 % width, p.2 % height)
    simpa [Function.comp_def] using hshown

theorem eq_of_add_mod_eq {a b c size : Nat} (hb : b < 16) (hc : c < 16) (hsize : 16 ≤ size)
    (h : (a + b) % size = (a + c) % size) : b = c := by
  have hmod : b ≡ c [MOD size] := Nat.ModEq.add_left_cancel' a h
  exact hmod.eq_of_lt_of_lt (by omega) (by omega)

/-- No two dots of a sprite wrap to one pixel. -/
theorem nodup_targets (hds : ds.Nodup) (hsmall : ∀ d ∈ ds, d.1 < 16 ∧ d.2 < 16)
    (hwidth : 16 ≤ width) (hheight : 16 ≤ height) :
    (targets clip width height x y ds).Nodup := by
  refine targets_sublist.nodup (List.Nodup.map_on ?_ hds)
  intro d hd e he heq
  obtain ⟨hcolumn, hrow⟩ := Prod.ext_iff.mp heq
  exact Prod.ext_iff.mpr
    ⟨eq_of_add_mod_eq (hsmall d hd).1 (hsmall e he).1 hwidth hcolumn,
      eq_of_add_mod_eq (hsmall d hd).2 (hsmall e he).2 hheight hrow⟩

end Sprite

/-! ## The sprite of a machine -/

namespace Machine

/-- The byte `k` cells behind the index register; behind the last cell comes the first. -/
def spriteByte (m : Machine) (k : Nat) : UInt8 :=
  m.ram.cells.get ⟨(m.index.toNat + k) % 4096, Nat.mod_lt _ (by decide)⟩

/-- The bit in a row and a column of the sprite of `n` rows: a bit of a word in extended resolution
if `n` is zero, and a bit of a byte otherwise. -/
def spriteBit (m : Machine) (n : Fin 16) (r c : Nat) : Bool :=
  if n.val = 0 ∧ m.screen.resolution = .extended then
    decide (r < 16 ∧ c < 16) &&
      (256 * (m.spriteByte (2 * r)).toNat + (m.spriteByte (2 * r + 1)).toNat).testBit (15 - c)
  else decide (r < n.val ∧ c < 8) && (m.spriteByte r).toNat.testBit (7 - c)

/-- The column of the screen where a sprite begins. -/
def spriteColumn (m : Machine) (x : Fin 16) : Nat := (m.register x).toNat % m.screen.width

/-- The row of the screen where a sprite begins. -/
def spriteRow (m : Machine) (y : Fin 16) : Nat := (m.register y).toNat % m.screen.height

/-- The pixel under a row and a column of a sprite; coordinates wrap. -/
def pixelUnder (m : Machine) (x y : Fin 16) (r c : Nat) : Nat × Nat :=
  ((m.spriteColumn x + c) % m.screen.width, (m.spriteRow y + r) % m.screen.height)

/-- A set bit of the sprite is drawn, unless a switch clips it. -/
def Drawn (m : Machine) (x y n : Fin 16) (r c : Nat) : Prop :=
  m.spriteBit n r c = true ∧
    (m.switches.clipSprites = true →
      m.spriteColumn x + c < m.screen.width ∧ m.spriteRow y + r < m.screen.height)

instance (m : Machine) (x y n : Fin 16) (r c : Nat) : Decidable (m.Drawn x y n r c) :=
  inferInstanceAs (Decidable (_ ∧ (_ → _)))

variable {m : Machine} {x y n : Fin 16}

theorem read_index_add (m : Machine) (k : Nat) :
    m.ram.read (m.index + UInt16.ofNat k) = m.spriteByte k := by
  have hcell : Ram.cell (m.index + UInt16.ofNat k) =
      ⟨(m.index.toNat + k) % 4096, Nat.mod_lt _ (by decide)⟩ := Fin.ext (Ram.val_cell_add m.index k)
  exact congrArg m.ram.cells.get hcell

theorem toNat_rowBits_wide (m : Machine) (r : Nat) :
    (m.rowBits true r).toNat =
      256 * (m.spriteByte (2 * r)).toNat + (m.spriteByte (2 * r + 1)).toNat := by
  have hnext : m.index + UInt16.ofNat (2 * r) + 1 = m.index + UInt16.ofNat (2 * r + 1) := by
    rw [UInt16.ofNat_add, ← UInt16.add_assoc]
    rfl
  show (joinBytes (m.ram.read _) (m.ram.read _)).toNat = _
  rw [hnext, read_index_add, read_index_add, toNat_joinBytes]

/-- The dots of a sprite are its set bits. -/
theorem mem_dots_rows_iff {r c : Nat} :
    (c, r) ∈ Sprite.dots (Sprite.rows m n) ↔ m.spriteBit n r c = true := by
  rw [rows_eq, Sprite.mem_dots_iff]
  by_cases hwide : n.val = 0 ∧ m.screen.resolution = .extended
  · simp [spriteBit, hwide, toNat_rowBits_wide, and_assoc]
  · have hnarrow : (n.val == 0 && m.screen.resolution == .extended) = false := by
      simpa using hwide
    rw [spriteBit, if_neg hwide, hnarrow, toNat_rowBits_narrow, read_index_add,
      Nat.testBit_two_pow_mul]
    simp only [Bool.false_eq_true, if_false, Bool.and_eq_true, decide_eq_true_eq]
    -- The low half of the word is dark, and the high half is the byte.
    constructor
    · rintro ⟨hr, hc, hhigh, hbit⟩
      have hplace : 15 - c - 8 = 7 - c := by omega
      exact ⟨⟨hr, by omega⟩, hplace ▸ hbit⟩
    · rintro ⟨⟨hr, hc⟩, hbit⟩
      have hplace : 15 - c - 8 = 7 - c := by omega
      exact ⟨hr, by omega, by omega, hplace ▸ hbit⟩

theorem lt_of_spriteBit {r c : Nat} (h : m.spriteBit n r c = true) : r < 16 ∧ c < 16 := by
  unfold spriteBit at h
  split at h
  · simp only [Bool.and_eq_true, decide_eq_true_eq] at h
    exact h.1
  · simp only [Bool.and_eq_true, decide_eq_true_eq] at h
    omega

/-- The pixels that are flipped are those under drawn bits. -/
theorem mem_spriteTargets_iff {p : Nat × Nat} :
    p ∈ m.spriteTargets x y n ↔ ∃ r c : Fin 16, m.Drawn x y n r c ∧ m.pixelUnder x y r c = p := by
  rw [spriteTargets, Sprite.mem_targets_iff]
  constructor
  · rintro ⟨⟨c, r⟩, hdot, hclip, hp⟩
    have hbit := mem_dots_rows_iff.mp hdot
    obtain ⟨hr, hc⟩ := lt_of_spriteBit hbit
    exact ⟨⟨r, hr⟩, ⟨c, hc⟩, ⟨hbit, hclip⟩, hp⟩
  · rintro ⟨r, c, ⟨hbit, hclip⟩, hp⟩
    exact ⟨(c.val, r.val), mem_dots_rows_iff.mpr hbit, hclip, hp⟩

theorem nodup_spriteTargets (m : Machine) (x y n : Fin 16) : (m.spriteTargets x y n).Nodup := by
  have hwidth : 16 ≤ m.screen.width := by
    rw [Raster.width]
    cases m.screen.resolution <;> decide
  have hheight : 16 ≤ m.screen.height := by
    rw [Raster.height]
    cases m.screen.resolution <;> decide
  refine Sprite.nodup_targets ?_ ?_ hwidth hheight
  · rw [rows_eq]
    exact Sprite.nodup_dots _ _
  · rintro ⟨c, r⟩ hdot
    exact (lt_of_spriteBit (mem_dots_rows_iff.mp hdot)).symm

/-- All flipped pixels are shown. -/
theorem lt_of_mem_spriteTargets {p : Nat × Nat} (hp : p ∈ m.spriteTargets x y n) :
    p.1 < m.screen.width ∧ p.2 < m.screen.height := by
  obtain ⟨r, c, -, rfl⟩ := mem_spriteTargets_iff.mp hp
  exact ⟨Nat.mod_lt _ m.screen.resolution.width_pos, Nat.mod_lt _ m.screen.resolution.height_pos⟩

theorem nodup_cellsOf_spriteTargets (m : Machine) (x y n : Fin 16) :
    (m.screen.cellsOf (m.spriteTargets x y n)).Nodup :=
  Raster.nodup_cellsOf (m.nodup_spriteTargets x y n) fun _ => lt_of_mem_spriteTargets

/-! ## The instruction -/

/-- Nothing but the flag register, the cells of the screen and the request to draw them changes. -/
theorem drawSprite_eq (m : Machine) (x y n : Fin 16) :
    m.drawSprite x y n =
      let drawn := m.screen.toggleAll (m.spriteTargets x y n)
      { m.setRegister 15 (if drawn.1 then 1 else 0) with
        screen := { m.screen with cells := drawn.2.cells }
        redraw := true } := by
  have hwindow := m.screen.toggleAll_snd (m.spriteTargets x y n)
  unfold drawSprite
  generalize m.screen.toggleAll (m.spriteTargets x y n) = drawn at hwindow ⊢
  dsimp only
  rw [← hwindow, flagRegister_eq]

/-- The words that draw do so in every dialect. -/
theorem execute_of_covers_draw {w : UInt16} (hw : Shape.Covers ⟨0xD, .free, .free, .free⟩ w) :
    m.execute w = .ok (.next, m.drawSprite (digitAt w 2) (digitAt w 1) (digitAt w 0)) :=
  execute_of_covers .drawSprite (by decide) (Dialect.chip8_le _) hw

/-- Whatever the machine, drawing does this and nothing else. A shown pixel is flipped if a drawn
bit lies over it, and the flag register tells whether such a pixel was lit before. The coordinates
are read before the flag register is set, and cells that are not shown stay as they are. -/
theorem execute_drawing (m : Machine) {w : UInt16}
    (hw : Shape.Covers ⟨0xD, .free, .free, .free⟩ w) :
    let x := digitAt w 2
    let y := digitAt w 1
    let n := digitAt w 0
    ∃ (collided : Bool) (cells : Vector Bool 8192),
      m.execute w = .ok (.next, { m.setRegister 15 (if collided then 1 else 0) with
        screen := { m.screen with cells }
        redraw := true }) ∧
      (collided = true ↔ ∃ r c : Fin 16, m.Drawn x y n r c ∧
        m.screen.pixel (m.pixelUnder x y r c).1 (m.pixelUnder x y r c).2 = true) ∧
      (∀ u < m.screen.width, ∀ v < m.screen.height,
        Raster.pixel { m.screen with cells } u v = (m.screen.pixel u v ^^
          decide (∃ r c : Fin 16, m.Drawn x y n r c ∧ m.pixelUnder x y r c = (u, v)))) ∧
      (∀ i : Fin 8192,
        (∀ u < m.screen.width, ∀ v < m.screen.height, m.screen.cellOf u v ≠ i) →
        cells.get i = m.screen.cells.get i) := by
  intro x y n
  -- No cell is flipped twice, so each flip finds the screen as it was before the instruction.
  have hnodup := m.nodup_cellsOf_spriteTargets x y n
  refine ⟨(m.screen.toggleAll (m.spriteTargets x y n)).1,
    (m.screen.toggleAll (m.spriteTargets x y n)).2.cells, ?_, ?_, ?_, ?_⟩
  · rw [execute_of_covers_draw hw, drawSprite_eq]
  · rw [Raster.toggleAll_fst_of_nodup hnodup]
    constructor
    · rintro ⟨p, hp, hlit⟩
      obtain ⟨r, c, hdrawn, rfl⟩ := mem_spriteTargets_iff.mp hp
      exact ⟨r, c, hdrawn, hlit⟩
    · rintro ⟨r, c, hdrawn, hlit⟩
      exact ⟨_, mem_spriteTargets_iff.mpr ⟨r, c, hdrawn, rfl⟩, hlit⟩
  · intro u hu v hv
    have hmem : m.screen.cellOf u v ∈ m.screen.cellsOf (m.spriteTargets x y n) ↔
        ∃ r c : Fin 16, m.Drawn x y n r c ∧ m.pixelUnder x y r c = (u, v) :=
      (Raster.cellOf_mem_cellsOf_iff hu hv fun _ => lt_of_mem_spriteTargets).trans
        mem_spriteTargets_iff
    by_cases hover : ∃ r c : Fin 16, m.Drawn x y n r c ∧ m.pixelUnder x y r c = (u, v)
    · rw [decide_eq_true hover, Bool.xor_true]
      exact Raster.get_toggleAll_of_mem hnodup (hmem.mpr hover)
    · rw [decide_eq_false hover, Bool.xor_false]
      exact Raster.get_toggleAll_of_not_mem (mt hmem.mp hover)
  · intro i hhidden
    refine Raster.get_toggleAll_of_not_mem fun hi => ?_
    obtain ⟨p, hp, heq⟩ := List.mem_map.mp hi
    obtain ⟨hu, hv⟩ := lt_of_mem_spriteTargets hp
    exact hhidden p.1 hu p.2 hv heq

/-- A sprite around the lower right corner, read across the end of memory. Its column stands in the
flag register, which then tells that the pixel in the corner was put out. -/
theorem execute_drawing_wrapped :
    let m : Machine := {
      ram := (({} : Ram).write 0xFFF 0xC0).write 0x000 0x80
      index := 0xFFF
      v := (Vector.replicate 16 31).set 15 63
      screen := (({} : Raster).toggle 63 31).2 }
    Shape.Covers ⟨0xD, .free, .free, .free⟩ 0xDF02 ∧
      ∃ next, m.execute 0xDF02 = .ok (.next, next) ∧
        next.register 15 = 1 ∧ next.register 0 = 31 ∧ next.redraw = true ∧
        next.screen.pixel 63 31 = false ∧ next.screen.pixel 0 31 = true ∧
        next.screen.pixel 63 0 = true := by
  intro m
  have hw : Shape.Covers ⟨0xD, .free, .free, .free⟩ 0xDF02 := by decide
  obtain ⟨collided, cells, hexecute, hflag, hpixels, -⟩ := execute_drawing m hw
  have hcollided : collided = true := hflag.mpr ⟨0, 0, by decide +kernel⟩
  subst hcollided
  refine ⟨hw, _, hexecute, ?_, ?_, rfl, ?_, ?_, ?_⟩
  · exact (m.register_setRegister 15 15 1).trans (if_pos rfl)
  · exact (m.register_setRegister 15 0 1).trans (if_neg (by decide))
  · rw [hpixels 63 (by decide) 31 (by decide), decide_eq_true]
    · decide +kernel
    · exact ⟨0, 0, by decide +kernel⟩
  · rw [hpixels 0 (by decide) 31 (by decide), decide_eq_true]
    · decide +kernel
    · exact ⟨0, 1, by decide +kernel⟩
  · rw [hpixels 63 (by decide) 0 (by decide), decide_eq_true]
    · decide +kernel
    · exact ⟨1, 0, by decide +kernel⟩

end Machine
end ChipEight
