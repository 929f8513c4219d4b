import Mathlib.Algebra.BigOperators.Group.List.Lemmas
import Mathlib.Algebra.BigOperators.Ring.List
import ChipEight.Proofs.Machine.Drawing

/-!
# Sprites in any order

Which pixels a draw flips depends on memory, on the switches and on the window of the screen, and
draws leave these alone. So after a list of draws a cell is known from how many of them flip it,
and their order is forgotten: `draws_commute`.
-/

namespace ChipEight

/-- What the registers, the index register and the last digit of a word say to draw. -/
structure Draw where
  column : UInt8
  row : UInt8
  index : UInt16
  rows : Fin 16
  deriving DecidableEq

namespace Draw

/-! ## One draw -/

/-- A machine with the memory, the switches and the screen of another, and a word that draws on it.
The other registers, the program counter and the dialect may be any. -/
structure Readies (d : Draw) (m ready : Machine) (w : UInt16) : Prop where
  ram : ready.ram = m.ram
  switches : ready.switches = m.switches
  screen : ready.screen = m.screen
  word : Shape.Covers ⟨0xD, .free, .free, .free⟩ w
  column : ready.register (digitAt w 2) = d.column
  row : ready.register (digitAt w 1) = d.row
  index : ready.index = d.index
  rows : digitAt w 0 = d.rows

/-- A machine that was readied for a draw executes it. -/
def Executes (d : Draw) (m next : Machine) : Prop :=
  ∃ ready w, d.Readies m ready w ∧ ready.execute w = .ok (.next, next)

/-- Draws are executed one after another, each with registers of its own. -/
inductive ExecutesAll : List Draw → Machine → Machine → Prop
  | nil (m : Machine) : ExecutesAll [] m m
  | cons {d : Draw} {ds : List Draw} {m mid next : Machine} (first : d.Executes m mid)
    (rest : ExecutesAll ds mid next) : ExecutesAll (d :: ds) m next

/-! ## What a draw flips -/

/-- The pixels that a draw flips. -/
def targets (d : Draw) (m : Machine) : List (Nat × Nat) :=
  Sprite.targets m.switches.clipSprites m.screen.width m.screen.height
    (d.column.toNat % m.screen.width) (d.row.toNat % m.screen.height)
    (Sprite.dots (Sprite.rows { m with index := d.index } d.rows))

/-- Whether a draw flips a cell. -/
def flips (m : Machine) (i : Fin 8192) (d : Draw) : Bool :=
  decide ((m.screen.cellsOf (d.targets m)).count i % 2 = 1)

/-- Memory, switches and window, as they were. -/
structure SameScene (m next : Machine) : Prop where
  ram : next.ram = m.ram
  switches : next.switches = m.switches
  window : ∃ cells, next.screen = { m.screen with cells }

variable {d : Draw} {m next ready : Machine} {w : UInt16}

theorem SameScene.trans {mid : Machine} (h : SameScene m mid) (h' : SameScene mid next) :
    SameScene m next := by
  obtain ⟨cells, hmid⟩ := h.window
  obtain ⟨after, hnext⟩ := h'.window
  exact ⟨h'.ram.trans h.ram, h'.switches.trans h.switches, after, by rw [hnext, hmid]⟩

theorem flips_eq_of_sameScene (h : SameScene m next) (i : Fin 8192) :
    flips next i = flips m i := by
  obtain ⟨cells, hscreen⟩ := h.window
  funext d
  have htargets : d.targets next = d.targets m := by
    simp only [targets, Sprite.rows, h.ram, h.switches, hscreen]
    rfl
  unfold flips
  rw [htargets, hscreen]
  rfl

theorem Readies.spriteTargets_eq (h : d.Readies m ready w) :
    ready.spriteTargets (digitAt w 2) (digitAt w 1) (digitAt w 0) = d.targets m := by
  simp only [Machine.spriteTargets, targets, Sprite.rows, h.ram, h.switches, h.screen, h.column,
    h.row, h.index, h.rows]

/-! ## Steps -/

/-- Every machine can be readied for a draw. -/
theorem exists_readies (d : Draw) (m : Machine) : ∃ ready w, d.Readies m ready w := by
  let ready := ({ m with index := d.index }.setRegister 0 d.column).setRegister 1 d.row
  obtain ⟨-, hx, hy, hn⟩ := digits_ofDigits 0xD 0 1 d.rows
  refine ⟨ready, ofDigits 0xD 0 1 d.rows, rfl, rfl, rfl, ?_, ?_, ?_, rfl, hn⟩
  · exact (Shape.covers_ofDigits _ _ _ _ _).mpr rfl
  · rw [hx, Machine.register_setRegister, if_neg (by decide), Machine.register_setRegister,
      if_pos rfl]
  · rw [hy, Machine.register_setRegister, if_pos rfl]

/-- A draw never fails. -/
theorem Readies.exists_execute (h : d.Readies m ready w) :
    ∃ next, ready.execute w = .ok (.next, next) :=
  ⟨_, Machine.execute_of_covers_draw h.word⟩

/-- A draw flips its cells, whatever they were, and leaves the scene alone. -/
theorem Executes.step (h : d.Executes m next) :
    SameScene m next ∧
      ∀ i, next.screen.cells.get i = (m.screen.cells.get i ^^ flips m i d) := by
  obtain ⟨ready, w, hready, hexecute⟩ := h
  rw [Machine.execute_of_covers_draw hready.word, Machine.drawSprite_eq, hready.spriteTargets_eq,
    hready.screen] at hexecute
  cases hexecute
  refine ⟨⟨hready.ram, hready.switches, _, rfl⟩, fun i => ?_⟩
  exact m.screen.get_toggleAll (d.targets m) i

/-! ## Runs -/

/-- After a list of draws, a cell is known from how many of them flip it. -/
theorem ExecutesAll.run {ds : List Draw} (h : ExecutesAll ds m next) :
    SameScene m next ∧ ∀ i, next.screen.cells.get i =
      (m.screen.cells.get i ^^ decide (ds.countP (flips m i) % 2 = 1)) := by
  induction h with
  | nil m => exact ⟨⟨rfl, rfl, m.screen.cells, rfl⟩, fun i => (Bool.xor_false _).symm⟩
  | cons first rest ih =>
    obtain ⟨hfirst, hflip⟩ := first.step
    obtain ⟨hrest, hflips⟩ := ih
    refine ⟨hfirst.trans hrest, fun i => ?_⟩
    rw [hflips, hflip, flips_eq_of_sameScene hfirst, List.countP_cons, decide_odd_add_ite,
      Bool.xor_assoc]

theorem exists_executesAll (ds : List Draw) (m : Machine) : ∃ next, ExecutesAll ds m next := by
  induction ds generalizing m with
  | nil => exact ⟨m, .nil m⟩
  | cons d ds ih =>
    obtain ⟨ready, w, hready⟩ := d.exists_readies m
    obtain ⟨mid, hexecute⟩ := hready.exists_execute
    obtain ⟨next, hrest⟩ := ih mid
    exact ⟨next, .cons ⟨ready, w, hready, hexecute⟩ hrest⟩

/-- The screen after a list of draws is known from the parities of its flips. -/
theorem ExecutesAll.screen_eq {ds : List Draw} {screen : Raster} (h : ExecutesAll ds m next)
    (hwindow : ∃ cells, screen = { m.screen with cells })
    (hcells : ∀ i, screen.cells.get i =
      (m.screen.cells.get i ^^ decide (ds.countP (flips m i) % 2 = 1))) :
    next.screen = screen := by
  obtain ⟨⟨-, -, after, hafter⟩, hflips⟩ := h.run
  obtain ⟨cells, rfl⟩ := hwindow
  rw [hafter] at hflips ⊢
  have hsame : after = cells := by
    refine Vector.ext fun i hi => ?_
    exact (hflips ⟨i, hi⟩).trans (hcells ⟨i, hi⟩).symm
  rw [hsame]

/-- A list in which everything occurs an even number of times has evenly many elements of every
kind. -/
theorem countP_mod_two_of_count {ds : List Draw} (h : ∀ d, ds.count d % 2 = 0)
    (p : Draw → Bool) : ds.countP p % 2 = 0 := by
  rw [← List.sum_map_count_dedup_filter_eq_countP]
  refine Nat.mod_eq_zero_of_dvd (List.dvd_sum fun n hn => ?_)
  obtain ⟨d, -, rfl⟩ := List.mem_map.mp hn
  exact Nat.dvd_of_mod_eq_zero (h d)

/-- Draws commute: none of them fails, a list of them leaves the same screen in every order, and a
list in which each occurs an even number of times leaves the screen as it was. -/
theorem draws_commute (m : Machine) (ds : List Draw) :
    (∀ (d : Draw) mid ready w, d.Readies mid ready w →
      ∃ next, ready.execute w = .ok (.next, next)) ∧
    (∃ next, ExecutesAll ds m next) ∧
    (∀ es, ds.Perm es → ∀ one other, ExecutesAll ds m one → ExecutesAll es m other →
      one.screen = other.screen) ∧
    ((∀ d, ds.count d % 2 = 0) → ∀ next, ExecutesAll ds m next → next.screen = m.screen) := by
  refine ⟨fun _ _ _ _ h => h.exists_execute, exists_executesAll ds m, ?_, ?_⟩
  · intro es hperm one other hone hother
    obtain ⟨hscene, hflips⟩ := hother.run
    refine hone.screen_eq hscene.window fun i => ?_
    rw [hflips, hperm.countP_eq]
  · intro heven next hnext
    refine hnext.screen_eq ⟨m.screen.cells, rfl⟩ fun i => ?_
    rw [countP_mod_two_of_count heven]
    exact (Bool.xor_false _).symm

/-- Two sprites that overlap, one of them around the right edge. -/
theorem draws_commute_overlapping :
    let m : Machine := { ram := (({} : Ram).write 0x300 0xC0).write 0x301 0x80 }
    let d : Draw := { column := 0, row := 0, index := 0x300, rows := 1 }
    let e : Draw := { column := 63, row := 0, index := 0x300, rows := 2 }
    (∃ one other, ExecutesAll [d, e] m one ∧ ExecutesAll [e, d] m other ∧
      one.screen = other.screen ∧ one.screen.cells.get 0 = false ∧
      one.screen.cells.get 1 = true) ∧
    ∃ next, ExecutesAll [d, e, e, d] m next ∧ next.screen = m.screen := by
  intro m d e
  obtain ⟨-, ⟨one, hone⟩, hperm, -⟩ := draws_commute m [d, e]
  obtain ⟨other, hother⟩ := exists_executesAll [e, d] m
  obtain ⟨-, ⟨next, hnext⟩, -, heven⟩ := draws_commute m [d, e, e, d]
  obtain ⟨-, hflips⟩ := hone.run
  refine ⟨⟨one, other, hone, hother, hperm _ (.swap e d []) one other hone hother, ?_, ?_⟩,
    next, hnext, heven (fun f => ?_) next hnext⟩
  · rw [hflips]
    decide +kernel
  · rw [hflips]
    decide +kernel
  · simp only [List.count_cons, List.count_nil]
    omega

end Draw
end ChipEight
