import ChipEight.Proofs.Bare.Agreement

/-!
# Drawing on bare storage

A sprite is drawn bit by bit, row after row, with one look at memory for each row. This flips the
same pixels in the same order as flipping all targets of the sprite.
-/

namespace ChipEight

open Bare

/-! ## Flipping pixels -/

namespace Raster

theorem toggleAll_cons (s : Raster) (p : Nat × Nat) (ps : List (Nat × Nat)) :
    s.toggleAll (p :: ps) =
      ((s.toggle p.1 p.2).1 || ((s.toggle p.1 p.2).2.toggleAll ps).1,
        ((s.toggle p.1 p.2).2.toggleAll ps).2) := rfl

theorem size_toggleAll : ∀ (s : Raster) (ps : List (Nat × Nat)),
    (s.toggleAll ps).2.width = s.width ∧ (s.toggleAll ps).2.height = s.height
  | _, [] => ⟨rfl, rfl⟩
  | s, p :: ps => size_toggleAll (s.toggle p.1 p.2).2 ps

/-- Whether a pixel was hit before or is by flipping others, and the bare screen with these
flipped. -/
def struck (hit : Bool) (s : Raster) (ps : List (Nat × Nat)) : Bool × Screen :=
  (hit || (s.toggleAll ps).1, (s.toggleAll ps).2.bare)

theorem struck_nil (hit : Bool) (s : Raster) : struck hit s [] = (hit, s.bare) := by
  simp [struck, toggleAll]

theorem struck_cons (hit : Bool) (s : Raster) (p : Nat × Nat) (ps : List (Nat × Nat)) :
    struck hit s (p :: ps) =
      struck (hit || (s.toggle p.1 p.2).1) (s.toggle p.1 p.2).2 ps := by
  rw [struck, struck, toggleAll_cons, Bool.or_assoc]

/-- Flipping more pixels goes on from what the first ones left. -/
theorem struck_append : ∀ (hit : Bool) (s : Raster) (ps qs : List (Nat × Nat)),
    struck hit s (ps ++ qs) = struck (hit || (s.toggleAll ps).1) (s.toggleAll ps).2 qs
  | hit, s, [], qs => by simp [toggleAll]
  | hit, s, p :: ps, qs => by
    rw [List.cons_append, struck_cons, struck_append, toggleAll_cons, Bool.or_assoc]

end Raster

namespace Sprite

theorem targets_cons (clip : Bool) (width height x y : Nat) (d : Nat × Nat)
    (ds : List (Nat × Nat)) :
    targets clip width height x y (d :: ds) =
      (if clip && (width ≤ x + d.1 || height ≤ y + d.2) then []
        else [((x + d.1) % width, (y + d.2) % height)]) ++ targets clip width height x y ds := by
  cases clip with
  | false => simp [targets]
  | true =>
    by_cases h : x + d.1 < width ∧ y + d.2 < height
    · simp [targets, h, Nat.not_le.mpr h.1, Nat.not_le.mpr h.2]
    · have hout : width ≤ x + d.1 ∨ height ≤ y + d.2 := by omega
      simp [targets, h, hout]

theorem targets_append (clip : Bool) (width height x y : Nat) (ds es : List (Nat × Nat)) :
    targets clip width height x y (ds ++ es) =
      targets clip width height x y ds ++ targets clip width height x y es := by
  cases clip <;> simp [targets]

/-- The dots of rows that are given by their numbers. -/
theorem dots_map_range (f : Nat → UInt16) (n : Nat) :
    dots ((List.range n).map f) =
      (List.range n).flatMap fun r => (columns (f r)).map fun c => (c, r) := by
  have hzip : ((List.range n).map f).zipIdx = (List.range n).map fun r => (f r, r) := by
    apply List.ext_getElem
    · simp
    · intro i hi hn
      simp
  rw [dots, hzip, List.flatMap_map]

end Sprite

/-! ## Bits and rows -/

namespace Machine

open Bare.State Sprite

theorem drawBits_bare (clip : Bool) (bits : UInt16) {x y r : Nat} (hx : x < 128) (hy : y < 128)
    (hr : r < 16) : ∀ {cs : List Nat} (hit : Bool) (s : Raster), (∀ c ∈ cs, c < 16) →
    drawBits clip bits x y r hit s.bare cs =
      some (s.struck hit (targets clip s.width s.height x y
        ((cs.filter fun c => bits.toNat.testBit (15 - c)).map fun c => (c, r))))
  | [], hit, s, _ => by rw [drawBits, ← s.struck_nil]; simp [targets]
  | c :: cs, hit, s, h => by
    have hc : c < 16 := h c List.mem_cons_self
    have hcs : ∀ d ∈ cs, d < 16 := fun d hd => h d (List.mem_cons_of_mem c hd)
    have hbit : bit bits c = some (bits.toNat.testBit (15 - c)) := if_pos hc
    rw [drawBits, hbit]
    -- A bit that is off and a bit that is clipped away both leave the screen to the rest.
    cases hset : bits.toNat.testBit (15 - c) with
    | false =>
      rw [List.filter_cons_of_neg (by simp [hset])]
      exact drawBits_bare clip bits hx hy hr hit s hcs
    | true =>
      have hpx : sum 64 x c = some (x + c) := sum_eq_some (by omega)
      have hpy : sum 64 y r = some (y + r) := sum_eq_some (by omega)
      rw [List.filter_cons_of_pos (by simp [hset]), List.map_cons, targets_cons]
      simp only [hpx, hpy, Option.bind_eq_bind, Option.bind_some, if_true]
      show (if (clip && (decide (s.width ≤ x + c) || decide (s.height ≤ y + r))) = true then _
        else _) = _
      by_cases hclip : (clip && (decide (s.width ≤ x + c) || decide (s.height ≤ y + r))) = true
      · rw [if_pos hclip, if_pos hclip, List.nil_append]
        exact drawBits_bare clip bits hx hy hr hit s hcs
      · have hcolumn : (x + c) % s.width < 2 ^ 63 := Nat.lt_of_le_of_lt (Nat.mod_le _ _) (by omega)
        have hrow : (y + r) % s.height < 2 ^ 63 := Nat.lt_of_le_of_lt (Nat.mod_le _ _) (by omega)
        rw [if_neg hclip, if_neg hclip, List.singleton_append, Raster.struck_cons]
        show ((s.bare.toggle ((x + c) % s.width) ((y + r) % s.height)).bind fun p => _) = _
        rw [s.toggle_bare hcolumn hrow]
        exact drawBits_bare clip bits hx hy hr _ _ hcs

/-! ## Rows -/

/-- The bits of row `r` of the sprite at the index register. -/
def rowBits (m : Machine) (wide : Bool) (r : Nat) : UInt16 :=
  if wide then m.ram.word (m.index + UInt16.ofNat (2 * r))
  else joinBytes (m.ram.read (m.index + UInt16.ofNat r)) 0

theorem rows_eq (m : Machine) (n : Fin 16) :
    let wide := n.val == 0 && m.screen.resolution == .extended
    Sprite.rows m n = (List.range (if wide then 16 else n.val)).map (m.rowBits wide) := by
  intro wide
  by_cases h : n.val = 0 ∧ m.screen.resolution = .extended
  · have hwide : wide = true := by simp [wide, h]
    rw [Sprite.rows, if_pos h, hwide]
    rfl
  · have hwide : wide = false := by simpa [wide] using h
    rw [Sprite.rows, if_neg h, hwide]
    rfl

theorem spriteRow_bare (m : Machine) (wide : Bool) {r : Nat} (hr : r < 16) :
    m.bare.spriteRow wide r = some (m.rowBits wide r) := by
  cases wide with
  | false =>
    show (m.bare.read (m.index + UInt16.ofNat r) >>= fun high => _) = _
    rw [m.read_bare]
    rfl
  | true =>
    have hproduct : product 16 2 r = some (2 * r) := product_eq_some (by omega)
    show (product 16 2 r >>= fun offset => m.bare.word (m.index + UInt16.ofNat offset)) = _
    rw [hproduct]
    exact m.word_bare _

/-- A narrow row stands in the high half of the word. -/
theorem toNat_rowBits_narrow (m : Machine) (r : Nat) :
    (m.rowBits false r).toNat = 2 ^ 8 * (m.ram.read (m.index + UInt16.ofNat r)).toNat :=
  toNat_joinBytes _ 0

/-- A narrow row has no bits beyond the eighth. -/
theorem columns_rowBits (m : Machine) (wide : Bool) (r : Nat) :
    columns (m.rowBits wide r) = (List.range (if wide then 16 else 8)).filter fun c =>
      (m.rowBits wide r).toNat.testBit (15 - c) := by
  cases wide with
  | true => rfl
  | false =>
    have hlow : ∀ c ∈ [8, 9, 10, 11, 12, 13, 14, 15],
        (m.rowBits false r).toNat.testBit (15 - c) = false := by
      intro c hc
      have hle : ¬ 15 - c ≥ 8 := by
        revert c
        decide
      rw [toNat_rowBits_narrow, Nat.testBit_two_pow_mul, decide_eq_false hle, Bool.false_and]
    have hnil : ([8, 9, 10, 11, 12, 13, 14, 15] : List Nat).filter (fun c =>
        (m.rowBits false r).toNat.testBit (15 - c)) = [] := by
      rw [List.filter_eq_nil_iff]
      intro c hc
      simp [hlow c hc]
    show ((List.range 8 ++ [8, 9, 10, 11, 12, 13, 14, 15]).filter _) = _
    rw [List.filter_append, hnil, List.append_nil]
    rfl

theorem drawRows_bare (m : Machine) (wide : Bool) {x y : Nat} (hx : x < 128) (hy : y < 128) :
    ∀ {rs : List Nat} (hit : Bool) (s : Raster), (∀ r ∈ rs, r < 16) →
    m.bare.drawRows wide x y hit s.bare rs =
      some (s.struck hit (targets m.switches.clipSprites s.width s.height x y
        (rs.flatMap fun r => (columns (m.rowBits wide r)).map fun c => (c, r))))
  | [], hit, s, _ => by rw [drawRows, ← s.struck_nil]; simp [targets]
  | r :: rs, hit, s, h => by
    have hr : r < 16 := h r List.mem_cons_self
    have hrs : ∀ q ∈ rs, q < 16 := fun q hq => h q (List.mem_cons_of_mem r hq)
    have hcs : ∀ c ∈ List.range (if wide then 16 else 8), c < 16 := by
      intro c hc
      have hc := List.mem_range.mp hc
      split at hc <;> omega
    rw [drawRows, m.spriteRow_bare wide hr]
    show (drawBits m.switches.clipSprites (m.rowBits wide r) x y r hit s.bare _ >>= fun p => _) = _
    rw [drawBits_bare _ _ hx hy hr hit s hcs, ← columns_rowBits]
    show m.bare.drawRows wide x y _ (Raster.bare _) rs = _
    rw [drawRows_bare m wide hx hy _ _ hrs, List.flatMap_cons, targets_append,
      Raster.struck_append, (Raster.size_toggleAll s _).1, (Raster.size_toggleAll s _).2]

/-- Drawing a sprite never stops, and draws what the machine draws. -/
theorem drawSprite_bare (m : Machine) (x y n : Fin 16) :
    m.bare.drawSprite (m.register x) (m.register y) n.val = some (m.drawSprite x y n).bare := by
  let wide := n.val == 0 && m.screen.resolution == .extended
  have hx : (m.register x).toNat % m.screen.width < 128 :=
    Nat.lt_of_lt_of_le (Nat.mod_lt _ m.screen.resolution.width_pos) m.screen.width_le
  have hy : (m.register y).toNat % m.screen.height < 128 :=
    Nat.lt_of_lt_of_le (Nat.mod_lt _ m.screen.resolution.height_pos)
      (Nat.le_trans m.screen.height_le (by decide))
  have hrows : ∀ r ∈ List.range (if wide then 16 else n.val), r < 16 := by
    intro r hr
    have hr := List.mem_range.mp hr
    split at hr <;> omega
  have htargets : m.spriteTargets x y n =
      targets m.switches.clipSprites m.screen.width m.screen.height
        ((m.register x).toNat % m.screen.width) ((m.register y).toNat % m.screen.height)
        ((List.range (if wide then 16 else n.val)).flatMap fun r =>
          (columns (m.rowBits wide r)).map fun c => (c, r)) := by
    rw [spriteTargets, rows_eq, dots_map_range]
  rw [State.drawSprite]
  show (m.bare.setRegister (15 : Fin 16).val 0 >>= fun s => _) = _
  rw [m.setRegister_bare]
  show ((m.setRegister 15 0).bare.drawRows wide ((m.register x).toNat % m.screen.width)
    ((m.register y).toNat % m.screen.height) false m.screen.bare
    (List.range (if wide then 16 else n.val)) >>= fun p => _) = _
  rw [drawRows_bare (m.setRegister 15 0) wide hx hy false m.screen hrows]
  show ((m.setRegister 15 0).bare.setRegister (15 : Fin 16).val _ >>= fun s => _) = _
  -- The flag is cleared before the rows are drawn and set once behind them.
  have hset : ∀ b, (m.setRegister 15 0).setRegister 15 b = m.setRegister 15 b := by
    intro b
    simp [setRegister]
  rw [setRegister_bare, hset, drawSprite, htargets]
  simp only [Bool.false_or]
  rfl

end Machine
end ChipEight
