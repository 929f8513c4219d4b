import ChipEight.Proofs.Debugger.Colours

/-!
# Random bytes in order

Only the words `Cxkk` draw a random byte, and each of them draws one, be it masked to nothing or
not. Whatever else is done to a machine between two of them leaves its generator where it is: a
failing instruction, a dump that is written, and also one that is restored, since dumps hold no
generator. So the bytes that a machine draws are those of its seed, in order and without a gap,
however often it has become another machine in between.
-/

namespace ChipEight

/-! ## Words -/

/-- The shape of the words `Cxkk`. -/
def randomShape : Shape := ⟨0xC, .free, .free, .free⟩

namespace Machine

variable {m : Machine} {w : UInt16}

/-- The words that draw do so in every dialect, and change a register and the generator only. -/
theorem execute_of_covers_random (hw : randomShape.Covers w) :
    m.execute w = .ok (.next, { m.setRegister (digitAt w 2)
      (m.noise.next.1 &&& (Operands.ofWord w).byte) with noise := m.noise.next.2 }) :=
  execute_of_covers .random (by decide) (Dialect.chip8_le _) hw

/-- All other words leave the generator alone. -/
theorem noise_of_execute {advance : Advance} {next : Machine} (hw : ¬randomShape.Covers w)
    (h : m.execute w = .ok (advance, next)) : next.noise = m.noise := by
  obtain ⟨f, hform, hperform⟩ := exists_perform_of_execute h
  by_contra hchanged
  exact hw (covers_of_owner hform (perform_touches hperform).noise (by decide) hchanged)

/-- The generator after a word: a word that fails draws nothing. -/
theorem noise_orKeep_execute (m : Machine) (w : UInt16) :
    (m.orKeep ((m.execute w).map (·.2))).noise =
      if randomShape.Covers w then m.noise.next.2 else m.noise := by
  by_cases hw : randomShape.Covers w
  · rw [if_pos hw, execute_of_covers_random hw]
    rfl
  · rw [if_neg hw]
    cases hexecute : m.execute w with
    | error fault => rfl
    | ok result => exact noise_of_execute hw hexecute

/-- A step moves the program counter besides. -/
theorem orKeep_step (m : Machine) :
    ∃ pc, m.orKeep (m.step.map (·.2)) =
      { m.orKeep ((m.execute m.currentWord).map (·.2)) with pc } := by
  rw [step]
  cases m.execute m.currentWord with
  | error fault => exact ⟨m.pc, rfl⟩
  | ok result => exact ⟨_, rfl⟩

/-! ## Requests and commands -/

/-- A request to execute nothing leaves the generator alone. -/
theorem noise_serve (m : Machine) {r : Request} (hstep : r ≠ .step)
    (hexecute : ∀ w, r ≠ .execute w) : (m.serve r).noise = m.noise := by
  cases r with
  | step => exact absurd rfl hstep
  | execute w => exact absurd rfl (hexecute w)
  | load program =>
    obtain ⟨ram, hserve⟩ := m.exists_serve_load_eq program
    rw [hserve]
  | deliverKey k =>
    obtain ⟨v, awaiting, pc, hserve⟩ := m.exists_serve_deliverKey_eq k
    rw [hserve]
  | restore bytes =>
    rw [serve]
    cases hrestore : m.restore bytes with
    | error failure => rfl
    | ok next => exact (describes_of_restore hrestore).2
  | restoreFlags bytes =>
    obtain ⟨flags, hserve⟩ := m.exists_serve_restoreFlags_eq bytes
    rw [hserve]
  | setFonts fonts => rw [serve, setFonts]
  | _ => rfl

end Machine

namespace Debugger

theorem Sets.noise_eq {m next : Machine} {a : Attribute} {value : Value}
    (h : Sets m a value next) : next.noise = m.noise := by
  cases h <;> rfl

theorem Attribute.noise_of_change {m next : Machine} {a : Attribute} {s : List Char}
    (h : a.change m s = .ok next) : next.noise = m.noise := by
  have hset := setOrRefused m s a
  rw [h] at hset
  generalize a.value? s = given at hset
  cases hset with
  | accepted hsets => exact hsets.noise_eq

/-- Commands leave the generator alone, those that load and save dumps too. -/
theorem Command.noise_perform (m : Machine) (folder : Folder) (c : Command) :
    (c.perform m folder).machine.noise = m.noise := by
  cases c with
  | set a value =>
    rw [perform]
    cases hchange : a.change m value with
    | error flaw => rfl
    | ok next => exact a.noise_of_change hchange
  | load path =>
    rw [perform]
    cases hload : loadDump m folder path with
    | error failure => rfl
    | ok next =>
      rw [loadDump] at hload
      cases hread : folder.readFile path with
      | error failure =>
        rw [hread] at hload
        cases hload
      | ok bytes =>
        rw [hread] at hload
        exact (Machine.describes_of_restore hload).2
  | save path | saveFlags path =>
    rw [perform]
    split <;> rfl
  | loadFlags path =>
    rw [perform]
    cases folder.read path with
    | error cause => rfl
    | ok bytes =>
      have hkept : (m.readFlags bytes).2.noise = m.noise := rfl
      dsimp only
      split <;> rename_i hflags <;> rw [hflags] at hkept <;> exact hkept
  | _ => rfl

end Debugger

/-! ## Moves -/

namespace Move

variable {m : Machine} {move : Move} {w : UInt16}

/-- The word that a move executes. -/
def word? (m : Machine) : Move → Option UInt16
  | request .step => some m.currentWord
  | request (.execute w) => some w
  | _ => none

/-- Whether a move draws a random byte. -/
def draws (m : Machine) (move : Move) : Bool :=
  (move.word? m).any fun w => decide (randomShape.Covers w)

/-- What a move executes, apart from the program counter. -/
theorem run_of_word? (h : move.word? m = some w) :
    ∃ pc, move.run m = { m.orKeep ((m.execute w).map (·.2)) with pc } := by
  cases move with
  | command c folder => cases h
  | request r =>
    cases r with
    | step =>
      obtain rfl := Option.some.inj h
      exact m.orKeep_step
    | execute word =>
      obtain rfl := Option.some.inj h
      exact ⟨_, rfl⟩
    | _ => cases h

/-- A move that executes no word leaves the generator alone. -/
theorem noise_run_of_word?_eq_none (h : move.word? m = none) : (move.run m).noise = m.noise := by
  cases move with
  | command c folder => exact c.noise_perform m folder
  | request r =>
    refine m.noise_serve ?_ ?_
    · rintro rfl
      cases h
    · rintro w rfl
      cases h

/-- A move takes one byte from the generator or leaves it alone. -/
theorem noise_run (m : Machine) (move : Move) :
    (move.run m).noise = if move.draws m then m.noise.next.2 else m.noise := by
  cases hword : move.word? m with
  | none =>
    rw [draws, hword]
    exact noise_run_of_word?_eq_none hword
  | some w =>
    obtain ⟨pc, hrun⟩ := run_of_word? hword
    rw [hrun, draws, hword]
    simp only [Option.any_some, decide_eq_true_eq]
    exact m.noise_orKeep_execute w

/-- What a move that draws puts into a register, and that it leaves the other registers alone. -/
theorem registers_run_of_covers (hword : move.word? m = some w) (hw : randomShape.Covers w) :
    (move.run m).v =
      m.v.set (digitAt w 2) (m.noise.next.1 &&& (Operands.ofWord w).byte) := by
  obtain ⟨pc, hrun⟩ := run_of_word? hword
  rw [hrun, Machine.execute_of_covers_random hw]
  rfl

/-! ## Runs -/

/-- How many of some moves, one after another, draw a random byte. -/
def drawCount (m : Machine) : List Move → Nat
  | [] => 0
  | move :: rest => (if move.draws m then 1 else 0) + drawCount (move.run m) rest

/-- The generator has moved on by the number of bytes drawn. -/
theorem noise_runAll (m : Machine) (moves : List Move) :
    (runAll m moves).noise = { m.noise with drawn := m.noise.drawn + drawCount m moves } := by
  induction moves generalizing m with
  | nil => rfl
  | cons move rest ih =>
    have hrest : runAll m (move :: rest) = runAll (move.run m) rest := rfl
    rw [hrest, ih, noise_run, drawCount]
    cases move.draws m with
    | false => simp
    | true => simp [Noise.next, Nat.add_assoc]

/-- From any machine on, whatever its stream is, the generator gives byte after byte of it, one for
each word `Cxkk`. If the next move executes another such word, the register `x` gets the next byte
of the stream, masked by `kk`. -/
theorem stream_in_order (start : Machine) (moves : List Move) :
    let m := runAll start moves
    let k := start.noise.drawn + drawCount start moves
    m.noise = { start.noise with drawn := k } ∧
      ∀ (move : Move) (w : UInt16), move.word? m = some w → randomShape.Covers w →
        (move.run m).v = m.v.set (digitAt w 2)
          (start.noise.stream k &&& UInt8.ofNat (w.toNat % 256)) := by
  intro m k
  have hnoise : m.noise = { start.noise with drawn := k } := noise_runAll start moves
  refine ⟨hnoise, fun move w hword hw => ?_⟩
  rw [registers_run_of_covers hword hw, hnoise, Noise.next, Operands.ofWord]

/-- After any moves from a new machine on, the generator of its seed has given as many bytes as
there were words `Cxkk`. If the next move executes another such word, the register `x` gets the
next byte of the seed, masked by `kk`. -/
theorem random_bytes_in_order (seed : UInt64) (moves : List Move) :
    let m := runAll (Machine.ofSeed seed) moves
    let k := drawCount (Machine.ofSeed seed) moves
    m.noise = { stream := Noise.byte seed, drawn := k } ∧
      ∀ (move : Move) (w : UInt16), move.word? m = some w → randomShape.Covers w →
        (move.run m).v =
          m.v.set (digitAt w 2) (Noise.byte seed k &&& UInt8.ofNat (w.toNat % 256)) := by
  have horder := stream_in_order (Machine.ofSeed seed) moves
  have hstart : (Machine.ofSeed seed).noise = { stream := Noise.byte seed } := by
    rw [Machine.ofSeed, Machine.ofNoise, Noise.ofSeed]
  rwa [hstart, Nat.zero_add] at horder

/-- A byte is drawn, an instruction fails, and dumps are written, restored and refused; then comes
the second byte of the seed. -/
theorem random_bytes_in_order_restored :
    let moves := [Move.request (.execute 0xC0FF), .request (.execute 0xFFFF),
      .command (.save "saved") {}, .request (.restore (Machine.ofSeed 7).dump),
      .request (.restore [])]
    let m := runAll (Machine.ofSeed 7) moves
    let next := Move.request (.execute 0xC50F)
    drawCount (Machine.ofSeed 7) moves = 1 ∧ next.word? m = some 0xC50F ∧
      randomShape.Covers 0xC50F ∧ (next.run m).v = m.v.set 5 (Noise.byte 7 1 &&& 0x0F) := by
  intro moves m next
  have hcount : drawCount (Machine.ofSeed 7) moves = 1 := by decide +kernel
  have hw : randomShape.Covers 0xC50F := by decide
  have hregisters := (random_bytes_in_order 7 moves).2 next 0xC50F rfl hw
  rw [hcount] at hregisters
  exact ⟨hcount, rfl, hw, hregisters⟩

end Move
end ChipEight
