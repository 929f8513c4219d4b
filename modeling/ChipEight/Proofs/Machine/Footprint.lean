import ChipEight.Proofs.Instruction.Decoding
import ChipEight.Proofs.Machine.Registers

/-!
# The footprint of execution

Most instructions change registers and the program counter and nothing else. Every other field
belongs to a few operations: `Touches` says to which, and `perform_touches` is the one case analysis
over the operations. `footprint_of_execute` says the same of words.
-/

namespace ChipEight

/-! ## Runs of cells -/

/-- The cell is one of `count` cells from an address on; behind the last cell comes the first. -/
def Within (a : UInt16) (count : Nat) (i : Fin 4096) : Prop :=
  ∃ n < count, i.val = (a.toNat + n) % 4096

namespace Ram

theorem val_cell_add (a : UInt16) (n : Nat) :
    (cell (a + UInt16.ofNat n)).val = (a.toNat + n) % 4096 := by
  show (a + UInt16.ofNat n).toNat % 4096 = _
  rw [UInt16.toNat_add, UInt16.toNat_ofNat']
  omega

/-- Writing bytes one after another changes as many cells and no others. -/
theorem get_writeAll_of_not_within (m : Ram) (a : UInt16) (bytes : List UInt8) {i : Fin 4096}
    (h : ¬Within a bytes.length i) : (m.writeAll a bytes).cells.get i = m.cells.get i := by
  induction bytes generalizing m a with
  | nil => rfl
  | cons b rest ih =>
    have hhere : (cell a).val ≠ i.val := fun heq => h ⟨0, Nat.succ_pos _, heq.symm⟩
    have hrest : ¬Within (a + 1) rest.length i := by
      rintro ⟨n, hn, hi⟩
      refine h ⟨n + 1, Nat.succ_lt_succ hn, ?_⟩
      rw [hi, UInt16.toNat_add]
      show ((a.toNat + 1) % 2 ^ 16 + n) % 4096 = _
      omega
    rw [writeAll, ih _ _ hrest]
    exact Vector.getElem_set_ne (cell a).isLt i.isLt hhere

end Ram

/-! ## Who owns which field -/

/-- Whether an operation changes the screen. -/
def Operation.draws : Operation → Bool
  | .clearScreen | .scrollDown | .scrollUp | .scrollRight | .scrollLeft | .lowResolution
  | .highResolution | .drawSprite => true
  | _ => false

/-- Whether an operation sets the index register, under the switch by which block transfers do. -/
def Operation.movesIndex (moveIndex : Bool) : Operation → Bool
  | .setIndex | .addIndex | .smallGlyph | .bigGlyph => true
  | .storeRegisters | .loadRegisters => moveIndex
  | _ => false

/-- How many cells an operation writes from the index register on. -/
def Operation.stored (o : Operands) : Operation → Nat
  | .storeDecimal => 3
  | .storeRegisters => o.x.val
  | .saveRange => Machine.registerDistance o.x o.y + 1
  | _ => 0

namespace Machine

/-- What an operation leaves alone. Registers and the program counter are anyone's. -/
structure Touches (operation : Operation) (o : Operands) (m next : Machine) : Prop where
  ram : ∀ i : Fin 4096, ¬Within m.index (operation.stored o) i →
    next.ram.cells.get i = m.ram.cells.get i
  drawn : operation.draws = true → next.redraw = true
  undrawn : operation.draws = false → next.screen = m.screen ∧ next.redraw = m.redraw
  index : operation.movesIndex m.switches.moveIndex = false → next.index = m.index
  flags : operation ≠ .storeFlags → next.flags = m.flags
  delay : operation ≠ .setDelay → next.delay = m.delay
  sound : operation ≠ .setSound → next.sound = m.sound
  noise : operation ≠ .random → next.noise = m.noise
  awaiting : operation ≠ .readKey → next.awaiting = m.awaiting
  running : next.running = m.running ∨ operation = .exit ∧ next.running = false
  stack : operation ≠ .call → next.stack = m.stack
  depth : operation ≠ .call → operation ≠ .ret → next.depth = m.depth
  keys : next.keys = m.keys
  switches : next.switches = m.switches
  dialect : next.dialect = m.dialect
  fonts : next.fonts = m.fonts
  palette : next.palette = m.palette
  breakpoints : next.breakpoints = m.breakpoints

variable {operation : Operation} {o : Operands}

/-! ## Parts of rules -/

/-- Registers and program counter, memory and index register as far as they are the operation's. -/
theorem touches_program (hdraws : operation.draws = false) (m : Machine) (ram : Ram)
    (v : Vector UInt8 16) (index pc : UInt16)
    (hram : ∀ i : Fin 4096, ¬Within m.index (operation.stored o) i →
      ram.cells.get i = m.ram.cells.get i)
    (hindex : operation.movesIndex m.switches.moveIndex = false → index = m.index) :
    Touches operation o m { m with ram, v, index, pc } := by
  constructor <;> simp_all

theorem touches_registers (hdraws : operation.draws = false) (m : Machine) (v : Vector UInt8 16)
    (pc : UInt16) : Touches operation o m { m with v, pc } :=
  touches_program hdraws m m.ram v m.index pc (fun _ _ => rfl) fun _ => rfl

theorem touches_screen (hdraws : operation.draws = true) (m : Machine) (v : Vector UInt8 16)
    (screen : Raster) : Touches operation o m { m with v, screen, redraw := true } := by
  constructor <;> simp [hdraws]

theorem touches_skipIf (hdraws : operation.draws = false) (m : Machine) (condition : Bool) :
    Touches operation o m (m.skipIf condition) := by
  cases condition with
  | true => exact touches_registers hdraws m m.v (m.pc + 2)
  | false => exact touches_registers hdraws m m.v m.pc

theorem touches_setLogic (hdraws : operation.draws = false) (m : Machine) (x : Fin 16)
    (b : UInt8) : Touches operation o m (m.setLogic x b) := by
  unfold setLogic
  dsimp only
  split <;> exact touches_registers hdraws m _ m.pc

theorem touches_drawSprite (hdraws : operation.draws = true) (m : Machine) (x y n : Fin 16) :
    Touches operation o m (m.drawSprite x y n) := by
  unfold drawSprite
  generalize m.screen.toggleAll (m.spriteTargets x y n) = drawn
  exact touches_screen hdraws m _ drawn.2

/-- Registers stored one after another are as many cells. -/
theorem get_storeList (m : Machine) (registers : List (Fin 16)) {i : Fin 4096}
    (h : ¬Within m.index registers.length i) :
    (m.storeList registers).ram.cells.get i = m.ram.cells.get i := by
  refine m.ram.get_writeAll_of_not_within m.index _ ?_
  rwa [List.length_map]

/-- The index register moves only if the switch says so. -/
theorem Touches.moveIndex {m next : Machine} (h : Touches operation o m next) (x : Fin 16)
    (hmoves : operation.movesIndex true = true) : Touches operation o m (next.moveIndex x) := by
  unfold Machine.moveIndex
  split
  · obtain ⟨_⟩ := h
    constructor <;> simp_all
  · exact h

/-- The program counter is anyone's. -/
theorem Touches.movePc {m next : Machine} (h : Touches operation o m next) (pc : UInt16) :
    Touches operation o m { next with pc } := by
  obtain ⟨_⟩ := h
  constructor <;> assumption

/-! ## Rules -/

/-- All operations but a call and a return, which can fail. -/
theorem exists_perform_touches (m : Machine) (o : Operands) (hcall : operation ≠ .call)
    (hret : operation ≠ .ret) :
    ∃ advance next, m.perform o operation = .ok (advance, next) ∧ Touches operation o m next := by
  cases operation
  case call => exact absurd rfl hcall
  case ret => exact absurd rfl hret
  case clearScreen | scrollDown | scrollUp | scrollRight | scrollLeft | lowResolution |
      highResolution =>
    exact ⟨_, _, rfl, touches_screen rfl m m.v _⟩
  case drawSprite => exact ⟨_, _, rfl, touches_drawSprite rfl m _ _ _⟩
  case skipIfByte | skipUnlessByte | skipIfRegister | skipUnlessRegister | skipIfKey |
      skipUnlessKey =>
    exact ⟨_, _, rfl, touches_skipIf rfl m _⟩
  case orRegister | andRegister | xorRegister =>
    exact ⟨_, _, rfl, touches_setLogic rfl m _ _⟩
  case setIndex | addIndex | smallGlyph | bigGlyph =>
    exact ⟨_, _, rfl, touches_program rfl m m.ram m.v _ m.pc (fun _ _ => rfl) nofun⟩
  case saveRange =>
    refine ⟨_, _, rfl, touches_program rfl m _ m.v m.index m.pc ?_ fun _ => rfl⟩
    intro i hi
    refine m.get_storeList _ ?_
    rwa [length_registerRange]
  case storeDecimal =>
    refine ⟨_, _, rfl, touches_program rfl m _ m.v m.index m.pc ?_ fun _ => rfl⟩
    exact fun i hi => m.ram.get_writeAll_of_not_within m.index _ hi
  case storeRegisters =>
    have hstore : Touches .storeRegisters o m (m.storeList (registersBelow o.x)) := by
      refine touches_program rfl m _ m.v m.index m.pc ?_ fun _ => rfl
      intro i hi
      refine m.get_storeList _ ?_
      rwa [length_registersBelow]
    exact ⟨_, _, rfl, hstore.moveIndex o.x rfl⟩
  case loadRegisters =>
    have hload : Touches .loadRegisters o m (m.loadBelow o.x) := touches_registers rfl m _ m.pc
    exact ⟨_, _, rfl, hload.moveIndex o.x rfl⟩
  case readKey =>
    simp only [perform]
    cases m.pressedKey with
    | some k => exact ⟨_, _, rfl, touches_registers rfl m _ m.pc⟩
    | none =>
      refine ⟨_, _, rfl, ?_⟩
      constructor <;> simp [Operation.draws]
  case exit | random | setDelay | setSound | storeFlags =>
    refine ⟨_, _, rfl, ?_⟩
    constructor <;> simp [Operation.draws, halt, keepFlags, setRegister]
  -- The other rules set registers or the program counter.
  all_goals exact ⟨_, _, rfl, touches_registers rfl m _ _⟩

theorem touches_call (m : Machine) {advance : Advance} {next : Machine}
    (h : m.perform o .call = .ok (advance, next)) : Touches .call o m next := by
  rw [perform] at h
  split at h
  · cases h
    constructor <;> simp [Operation.draws]
  · cases h

theorem touches_ret (m : Machine) {advance : Advance} {next : Machine}
    (h : m.perform o .ret = .ok (advance, next)) : Touches .ret o m next := by
  rw [perform] at h
  split at h
  · cases h
  · cases h
    constructor <;> simp [Operation.draws]

/-- An operation touches what is its own. -/
theorem perform_touches {m next : Machine} {advance : Advance}
    (h : m.perform o operation = .ok (advance, next)) : Touches operation o m next := by
  by_cases hcall : operation = .call
  · subst hcall
    exact m.touches_call h
  by_cases hret : operation = .ret
  · subst hret
    exact m.touches_ret h
  obtain ⟨_, _, hperform, htouches⟩ := m.exists_perform_touches o hcall hret
  rw [hperform] at h
  cases h
  exact htouches

/-! ## Words -/

theorem execute_of_find?_eq_none {w : UInt16} {m : Machine} (h : Form.find? w = none) :
    m.execute w = .error (.invalidInstruction w m.pc) := by
  rw [execute, h]
  rfl

theorem execute_of_not_le {w : UInt16} {m : Machine} {f : Form} (h : Form.find? w = some f)
    (hlater : ¬f.dialect ≤ m.dialect) : m.execute w = .error (.invalidInstruction w m.pc) := by
  rw [execute, h, Option.filter_some, if_neg (by simpa using hlater)]

theorem execute_of_le {w : UInt16} {m : Machine} {f : Form} (h : Form.find? w = some f)
    (hle : f.dialect ≤ m.dialect) :
    m.execute w = m.perform (Operands.ofWord w) f.operation := by
  rw [execute, h, Option.filter_some, if_pos (by simpa using hle)]

/-- The words of a shape perform its operation, in every dialect that has it. -/
theorem execute_of_covers {w : UInt16} {m : Machine} {s : Shape} {dialect : Dialect}
    (operation : Operation) (hrow : ∃ f ∈ Form.table,
      f.shape = s ∧ f.operation = operation ∧ f.dialect = dialect)
    (hle : dialect ≤ m.dialect) (hw : s.Covers w) :
    m.execute w = m.perform (Operands.ofWord w) operation := by
  obtain ⟨f, hf, rfl, rfl, rfl⟩ := hrow
  exact execute_of_le (find?_eq_some_iff.mpr ⟨hf, hw⟩) hle

/-- The shapes of the words that change the screen. -/
def drawingShapes : List Shape :=
  [⟨0, 0, 0xE, 0⟩, ⟨0, 0, 0xC, .free⟩, ⟨0, 0, 0xD, .free⟩, ⟨0, 0, 0xF, 0xB⟩, ⟨0, 0, 0xF, 0xC⟩,
   ⟨0, 0, 0xF, 0xE⟩, ⟨0, 0, 0xF, 0xF⟩, ⟨0xD, .free, .free, .free⟩]

/-- The cells that a word can write: three digits, the registers below one, or a range of
registers, from the index register on. -/
def MayStore (w : UInt16) (m : Machine) (i : Fin 4096) : Prop :=
  Shape.Covers ⟨0xF, .free, 3, 3⟩ w ∧ Within m.index 3 i ∨
  Shape.Covers ⟨0xF, .free, 5, 5⟩ w ∧ Within m.index (digitAt w 2).val i ∨
  Shape.Covers ⟨5, .free, .free, 2⟩ w ∧
    Within m.index (registerDistance (digitAt w 2) (digitAt w 1) + 1) i

/-- The words that can set the index register, the last two of them only with the switch on. -/
def MayMoveIndex (w : UInt16) (moveIndex : Bool) : Prop :=
  Shape.Covers ⟨0xA, .free, .free, .free⟩ w ∨ Shape.Covers ⟨0xF, .free, 1, 0xE⟩ w ∨
  Shape.Covers ⟨0xF, .free, 2, 9⟩ w ∨ Shape.Covers ⟨0xF, .free, 3, 0⟩ w ∨
  moveIndex = true ∧
    (Shape.Covers ⟨0xF, .free, 5, 5⟩ w ∨ Shape.Covers ⟨0xF, .free, 6, 5⟩ w)

/-- What executing a word can change, field by field. -/
structure Footprint (w : UInt16) (m next : Machine) : Prop where
  ram : ∀ i : Fin 4096, next.ram.cells.get i ≠ m.ram.cells.get i → MayStore w m i
  drawn : (∃ s ∈ drawingShapes, s.Covers w) → next.redraw = true
  undrawn : (∀ s ∈ drawingShapes, ¬s.Covers w) →
    next.screen = m.screen ∧ next.redraw = m.redraw
  flags : next.flags ≠ m.flags → Shape.Covers ⟨0xF, .free, 7, 5⟩ w
  delay : next.delay ≠ m.delay → Shape.Covers ⟨0xF, .free, 1, 5⟩ w
  sound : next.sound ≠ m.sound → Shape.Covers ⟨0xF, .free, 1, 8⟩ w
  noise : next.noise ≠ m.noise → Shape.Covers ⟨0xC, .free, .free, .free⟩ w
  running : next.running ≠ m.running → w = 0x00FD ∧ m.running = true ∧ next.running = false
  awaiting : next.awaiting ≠ m.awaiting → Shape.Covers ⟨0xF, .free, 0, 0xA⟩ w
  index : next.index ≠ m.index → MayMoveIndex w m.switches.moveIndex
  dialect : next.dialect = m.dialect
  switches : next.switches = m.switches
  fonts : next.fonts = m.fonts
  palette : next.palette = m.palette
  breakpoints : next.breakpoints = m.breakpoints
  keys : next.keys = m.keys

variable {m next : Machine} {w : UInt16} {f : Form}

theorem exists_perform_of_execute {advance : Advance} (h : m.execute w = .ok (advance, next)) :
    ∃ f, Form.find? w = some f ∧
      m.perform (Operands.ofWord w) f.operation = .ok (advance, next) := by
  rw [execute] at h
  split at h
  · cases h
  · exact ⟨_, (Option.filter_eq_some_iff.mp ‹_›).1, h⟩

/-- A field that one operation owns is changed by the words of that operation. -/
theorem covers_of_owner {α : Type} {before after : α} {owner : Operation} {s : Shape}
    (hform : Form.find? w = some f) (howner : f.operation ≠ owner → after = before)
    (hshape : ∀ g ∈ Form.table, g.operation = owner → g.shape = s) (h : after ≠ before) :
    s.Covers w := by
  refine covers_of_operation hform ?_ hshape
  by_contra hother
  exact h (howner hother)

/-- The words that change the screen are those of the operations that do. -/
theorem exists_covers_iff_draws (hform : Form.find? w = some f) :
    (∃ s ∈ drawingShapes, s.Covers w) ↔ f.operation.draws = true := by
  have hshapes : ∀ s ∈ drawingShapes, ∃ g ∈ Form.table,
      g.shape = s ∧ g.operation.draws = true := by decide
  have hforms : ∀ g ∈ Form.table, g.operation.draws = true → g.shape ∈ drawingShapes := by decide
  constructor
  · rintro ⟨s, hs, hw⟩
    obtain ⟨g, hg, rfl, hdraws⟩ := hshapes s hs
    rwa [eq_of_covers (mem_table_of_find? hform) hg (covers_of_find? hform) hw]
  · intro hdraws
    exact ⟨f.shape, hforms f (mem_table_of_find? hform) hdraws, covers_of_find? hform⟩

theorem mayStore_of_within (hform : Form.find? w = some f) {i : Fin 4096}
    (h : Within m.index (f.operation.stored (Operands.ofWord w)) i) : MayStore w m i := by
  cases hoperation : f.operation <;> rw [hoperation] at h
  case storeDecimal => exact .inl ⟨covers_of_operation hform hoperation (by decide), h⟩
  case storeRegisters => exact .inr (.inl ⟨covers_of_operation hform hoperation (by decide), h⟩)
  case saveRange => exact .inr (.inr ⟨covers_of_operation hform hoperation (by decide), h⟩)
  -- The other operations store nothing.
  all_goals
    obtain ⟨n, hn, -⟩ := h
    exact absurd hn (Nat.not_lt_zero n)

theorem mayMoveIndex_of_movesIndex (hform : Form.find? w = some f) {moveIndex : Bool}
    (h : f.operation.movesIndex moveIndex = true) : MayMoveIndex w moveIndex := by
  cases hoperation : f.operation <;> rw [hoperation] at h
  case setIndex => exact .inl (covers_of_operation hform hoperation (by decide))
  case addIndex => exact .inr (.inl (covers_of_operation hform hoperation (by decide)))
  case smallGlyph => exact .inr (.inr (.inl (covers_of_operation hform hoperation (by decide))))
  case bigGlyph =>
    exact .inr (.inr (.inr (.inl (covers_of_operation hform hoperation (by decide)))))
  case storeRegisters =>
    have hw := covers_of_operation hform hoperation (s := ⟨0xF, .free, 5, 5⟩) (by decide)
    exact .inr (.inr (.inr (.inr ⟨h, .inl hw⟩)))
  case loadRegisters =>
    have hw := covers_of_operation hform hoperation (s := ⟨0xF, .free, 6, 5⟩) (by decide)
    exact .inr (.inr (.inr (.inr ⟨h, .inr hw⟩)))
  -- The other operations leave the index register alone.
  all_goals cases h

/-- Whatever word is executed, it changes no more than its footprint. -/
theorem footprint_of_execute {advance : Advance} (h : m.execute w = .ok (advance, next)) :
    Footprint w m next := by
  obtain ⟨f, hform, hperform⟩ := exists_perform_of_execute h
  have htouches := perform_touches hperform
  constructor
  case ram =>
    intro i hi
    refine mayStore_of_within hform ?_
    by_contra hout
    exact hi (htouches.ram i hout)
  case drawn =>
    intro hdraws
    exact htouches.drawn ((exists_covers_iff_draws hform).mp hdraws)
  case undrawn =>
    intro hother
    refine htouches.undrawn (eq_false_of_ne_true fun hdraws => ?_)
    obtain ⟨s, hs, hw⟩ := (exists_covers_iff_draws hform).mpr hdraws
    exact hother s hs hw
  case flags => exact covers_of_owner hform htouches.flags (by decide)
  case delay => exact covers_of_owner hform htouches.delay (by decide)
  case sound => exact covers_of_owner hform htouches.sound (by decide)
  case noise => exact covers_of_owner hform htouches.noise (by decide)
  case awaiting => exact covers_of_owner hform htouches.awaiting (by decide)
  case running =>
    intro hchanged
    rcases htouches.running with hsame | ⟨hexit, hoff⟩
    · exact absurd hsame hchanged
    · have hw : Shape.Covers ⟨0, 0, 0xF, 0xD⟩ w := covers_of_operation hform hexit (by decide)
      rw [hoff] at hchanged
      exact ⟨(Shape.covers_iff_eq rfl).mp hw, eq_true_of_ne_false hchanged.symm, hoff⟩
  case index =>
    intro hmoved
    refine mayMoveIndex_of_movesIndex hform (eq_true_of_ne_false fun hstays => ?_)
    exact hmoved (htouches.index hstays)
  case dialect => exact htouches.dialect
  case switches => exact htouches.switches
  case fonts => exact htouches.fonts
  case palette => exact htouches.palette
  case breakpoints => exact htouches.breakpoints
  case keys => exact htouches.keys

/-- Three registers stored across the end of memory, and the index register moved with them. -/
theorem footprint_of_execute_wrapped :
    let m : Machine := {
      ram := {}
      index := 0xFFFE
      v := Vector.ofFn fun r => UInt8.ofNat r.val + 1
      switches := { moveIndex := true } }
    let next := (m.storeList (registersBelow 3)).moveIndex 3
    m.execute 0xF355 = .ok (.next, next) ∧ Footprint 0xF355 m next ∧
      next.ram.read 0xFFE = 1 ∧ next.ram.read 0 = 3 ∧ next.index = 2 := by
  intro m next
  have h : m.execute 0xF355 = .ok (.next, next) := rfl
  exact ⟨h, footprint_of_execute h, by decide +kernel, by decide +kernel, by decide +kernel⟩

end Machine
end ChipEight
