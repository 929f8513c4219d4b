import ChipEight.Machine.Dump
import ChipEight.Proofs.Bare.Agreement
import ChipEight.Proofs.Words

/-!
# Dumps of bare storage

A dump is written from bare storage with casts to a byte that may lose something, and read back
with checks of its own. The bare machine has the dump of the machine, and restores from any bytes
what the machine restores, or fails with the same failure.
-/

namespace ChipEight

open Dump Bare

/-! ## Reading words -/

namespace Dump

/-- A list of words is read as a vector of as many is. -/
theorem wordList_eq (n : Nat) : wordList n = Vector.toList <$> wordBlock n := by
  funext bytes
  show (if 2 * n ≤ bytes.length then _ else _) = _
  by_cases h : 2 * n ≤ bytes.length
  · have hblock : block (2 * n) bytes =
        .ok (⟨(bytes.take (2 * n)).toArray, by simp [h]⟩, bytes.drop (2 * n)) := dif_pos h
    rw [if_pos h]
    show _ = ((block (2 * n) bytes >>= fun p => _) >>= fun p => _)
    rw [hblock]
    show Except.ok (_, _) = Except.ok (Vector.toList _, _)
    rw [← words_toList]
    rfl
  · have hblock : block (2 * n) bytes = .error (.io .shortRead) := dif_neg h
    rw [if_neg h]
    show _ = ((block (2 * n) bytes >>= fun p => _) >>= fun p => _)
    rw [hblock]
    rfl

end Dump

/-! ## The bare machine -/

namespace Bare.State

/-- The dump of a machine; every number is cut to the bytes it is written with. -/
def dump (s : State) : List UInt8 :=
  s.memory.toList ++ s.flags.toList ++ s.v.toList ++
  [UInt8.ofNat s.depth, s.delay, s.sound] ++
  s.stack.toList.flatMap splitWord ++ splitWord s.pc ++ splitWord s.index ++
  s.keys.toList.map ofBool ++
  [(s.awaiting.map UInt8.ofNat).getD noAwaiting, ofBool s.running] ++
  s.screen.cells.toList.map ofBool ++
  [ofResolution s.screen.resolution, UInt8.ofNat s.screen.left, UInt8.ofNat s.screen.top] ++
  [UInt8.ofNat s.switches.bits, UInt8.ofNat s.dialect.rank, ofBool s.redraw,
   UInt8.ofNat s.fonts.small.number, UInt8.ofNat s.fonts.big.number] ++
  ofDouble s.palette.background ++ ofDouble s.palette.foreground ++
  ofBreakpoints s.breakpoints

def takeBytes (n : Nat) : Reader (List UInt8) := fun bytes =>
  if n ≤ bytes.length then .ok (bytes.take n, bytes.drop n) else .error (.io .shortRead)

/-- Takes `n` words one after another. -/
def takeWords : Nat → Reader (List UInt16)
  | 0 => pure []
  | n + 1 => do
    let w ← Dump.word
    let rest ← takeWords n
    return w :: rest

/-- Takes a screen over the cells of another one. -/
def takeScreen (screen : Screen) : Reader Screen := do
  let cells ← takeBytes 8192
  let resolution ← require .displayMode (resolution? (← byte))
  let left ← byte
  let top ← byte
  return { screen with
    cells := lay screen.cells 0 (cells.map (· != 0))
    resolution
    left := left.toNat % 128
    top := top.toNat % 64 }

/-- Takes breakpoints, adding one after another. -/
def takeBreakpoints : Reader AddressSet := do
  let count ← Dump.word
  let addresses ← takeWords count.toNat
  return addresses.foldl .insert .empty

/-- The number of return addresses that a byte stands for. -/
def depthOf? (b : UInt8) : Option Nat := if 16 < b.toNat then none else some b.toNat

def awaitingOf? (b : UInt8) : Option (Option Nat) :=
  if b = noAwaiting then some none
  else if b.toNat < 16 then some (some b.toNat)
  else none

/-- Takes a machine over the arrays of another one. -/
def take (s : State) : Reader State := do
  let memory ← takeBytes s.memory.size
  let flags ← takeBytes s.flags.size
  let v ← takeBytes s.v.size
  let depth ← require .stackPointer (depthOf? (← byte))
  let delay ← byte
  let sound ← byte
  let stack ← takeWords s.stack.size
  let pc ← Dump.word
  let index ← Dump.word
  let keys ← takeBytes 16
  let awaiting ← require .keyWait (awaitingOf? (← byte))
  let running ← byte
  let screen ← takeScreen s.screen
  let switches ← byte
  let dialect ← require .dialect (Dialect.ofRank? (← byte).toNat)
  let _ ← byte
  let small ← require .smallFont (Font.ofNumber? .small (← byte).toNat)
  let big ← require .bigFont (Font.ofNumber? .big (← byte).toNat)
  let background ← double
  let foreground ← double
  let breakpoints ← takeBreakpoints
  return { s with
    memory := memory.toArray, v := v.toArray, flags := flags.toArray, index, pc, depth
    stack := stack.toArray, delay, sound, awaiting, screen, dialect, breakpoints
    keys := lay s.keys 0 (keys.map (· != 0))
    running := running != 0
    redraw := true
    switches := Switches.ofBits switches.toNat
    fonts := { small, big }
    palette := { background, foreground } }

def restore (s : State) (bytes : List UInt8) : Except Failure State :=
  (s.take.run bytes).map (·.1)

/-- The machine after reading flag registers from a file, which may be too short. -/
def readFlags (s : State) (bytes : List UInt8) : State :=
  { s with flags := lay s.flags 0 (bytes.take s.flags.size) }

/-- The machine after reading flag registers from bytes at hand, if there are enough. -/
def restoreFlags (s : State) (bytes : List UInt8) : Except IoError State :=
  if bytes.length < s.flags.size then .error .shortRead else .ok (s.readFlags bytes)

end Bare.State

/-! ## Readers agree -/

namespace Machine

open Bare.State

/-- A reader that takes images of what another one takes can go on like it. -/
theorem bind_map_eq {α β γ δ : Type} {r : Reader β} {q : Reader α} {f : α → β} {g : γ → δ}
    {next : β → Reader δ} {more : α → Reader γ} (h : r = f <$> q)
    (hnext : ∀ a, next (f a) = g <$> more a) : r >>= next = g <$> (q >>= more) := by
  rw [h, map_bind, bind_map_left]
  exact congrArg (q >>= ·) (funext hnext)

/-- A reader that takes the same as another one can go on like it. -/
theorem bind_eq_map {α γ δ : Type} {r : Reader α} {g : γ → δ} {next : α → Reader δ}
    {more : α → Reader γ} (hnext : ∀ a, next a = g <$> more a) :
    r >>= next = g <$> (r >>= more) := by
  rw [map_bind]
  exact congrArg (r >>= ·) (funext hnext)

theorem require_map {α β : Type} (flaw : DumpFlaw) (f : α → β) (value : Option α) :
    require flaw (value.map f) = f <$> require flaw value := by
  cases value <;> rfl

theorem takeBytes_eq (n : Nat) : takeBytes n = Vector.toList <$> block n := by
  funext bytes
  show (if n ≤ bytes.length then _ else _) = (block n bytes >>= fun p => pure (p.1.toList, p.2))
  by_cases h : n ≤ bytes.length
  · rw [block, if_pos h, dif_pos h]
    rfl
  · rw [block, if_neg h, dif_neg h]
    rfl

theorem takeWords_eq (n : Nat) : takeWords n = wordList n := by
  -- One word at a time fails where too few bytes are left, all at once before the first.
  induction n with
  | zero => rfl
  | succ n ih =>
    funext bytes
    match bytes with
    | [] => rfl
    | [b] => rfl
    | high :: low :: rest =>
      show (takeWords n rest >>= fun p => _) = _
      rw [ih, wordList, wordList]
      have hlength : 2 * (n + 1) ≤ (high :: low :: rest).length ↔ 2 * n ≤ rest.length := by
        simp only [List.length_cons]
        omega
      by_cases h : 2 * n ≤ rest.length
      · rw [if_pos h, if_pos (hlength.mpr h)]
        rfl
      · rw [if_neg h, if_neg (mt hlength.mp h)]
        rfl

theorem insertAll_eq (addresses : List UInt16) :
    addresses.foldl .insert .empty = AddressSet.ofList addresses := by
  have hfold : ∀ (l : List UInt16) (s : AddressSet) (a : UInt16),
      (l.foldl .insert s).contains a = (l.contains a || s.contains a) := by
    intro l
    induction l with
    | nil => simp
    | cons b rest ih =>
      intro s a
      rw [List.foldl_cons, ih, AddressSet.contains_insert, List.contains_cons]
      cases rest.contains a <;> cases a == b <;> rfl
  have hlist : ∀ (l : List UInt16) (a : UInt16),
      (AddressSet.ofList l).contains a = l.contains a := by
    intro l a
    induction l with
    | nil => rfl
    | cons b rest ih =>
      show ((AddressSet.ofList rest).insert b).contains a = _
      rw [AddressSet.contains_insert, ih, List.contains_cons]
  -- The order of insertion is different, the members are the same.
  apply AddressSet.ext_contains
  intro a
  rw [hfold, hlist]
  exact Bool.or_false _

theorem takeBreakpoints_eq : takeBreakpoints = Dump.breakpoints := by
  have hwords : ∀ n, (takeWords n >>= fun addresses =>
      (pure (addresses.foldl .insert .empty) : Reader AddressSet)) =
        wordList n >>= fun addresses => pure (AddressSet.ofList addresses) := by
    intro n
    rw [takeWords_eq]
    exact congrArg (wordList n >>= ·) (funext fun addresses => by rw [insertAll_eq])
  exact congrArg (Dump.word >>= ·) (funext fun count => hwords count.toNat)

theorem depthOf?_eq (b : UInt8) : depthOf? b = (Dump.depth? b).map (·.val) := by
  rw [depthOf?, Dump.depth?]
  by_cases h : b.toNat < 17
  · rw [if_neg (by omega), dif_pos h]
    rfl
  · rw [if_pos (by omega), dif_neg h]
    rfl

theorem awaitingOf?_eq (b : UInt8) :
    awaitingOf? b = (Dump.awaiting? b).map fun awaiting => awaiting.map (·.val) := by
  rw [awaitingOf?, Dump.awaiting?]
  by_cases hnone : b = noAwaiting
  · rw [if_pos hnone, if_pos hnone]
    rfl
  · rw [if_neg hnone, if_neg hnone]
    by_cases h : b.toNat < 16
    · rw [if_pos h, dif_pos h]
      rfl
    · rw [if_neg h, dif_neg h]
      rfl

theorem bools_bind {α : Type} (n : Nat) (next : Vector Bool n → Reader α) :
    bools n >>= next = block n >>= fun v => next (v.map (· != 0)) := by
  rw [bools, bind_assoc]
  exact congrArg (block n >>= ·) (funext fun v => pure_bind _ _)

theorem lay_bools {n : Nat} (old : Vector Bool n) (v : Vector UInt8 n) :
    lay old.toArray 0 (v.toList.map (· != 0)) = (v.map (· != 0)).toArray := by
  rw [← Vector.toList_map]
  exact lay_zero old _

theorem takeScreen_bare (s : Raster) : takeScreen s.bare = Raster.bare <$> raster := by
  rw [takeScreen, raster, bools_bind]
  refine bind_map_eq (takeBytes_eq 8192) fun cells => ?_
  refine bind_eq_map fun b => bind_eq_map fun resolution => ?_
  refine bind_eq_map fun left => bind_eq_map fun top => ?_
  rw [map_pure]
  show pure (Screen.mk (lay s.cells.toArray 0 _) _ _ _) = _
  rw [lay_bools]
  rfl

/-- Over the arrays of a machine, from any bytes the same is read. -/
theorem take_bare (m : Machine) : m.bare.take = bare <$> Dump.machine m.noise := by
  have hmemory : m.bare.memory.size = 4096 := m.ram.cells.size_toArray
  have hflags : m.bare.flags.size = 8 := m.flags.size_toArray
  have hv : m.bare.v.size = 16 := m.v.size_toArray
  have hstack : m.bare.stack.size = 16 := m.stack.size_toArray
  rw [State.take, Dump.machine, hmemory, hflags, hv, hstack]
  -- Both readers take the same fields in the same order: one step for each.
  refine bind_map_eq (takeBytes_eq 4096) fun memory => ?_
  refine bind_map_eq (takeBytes_eq 8) fun flags => bind_map_eq (takeBytes_eq 16) fun v => ?_
  refine bind_eq_map fun b => bind_map_eq (f := (·.val)) ?_ fun depth => ?_
  · rw [depthOf?_eq, require_map]
  refine bind_eq_map fun delay => bind_eq_map fun sound => ?_
  refine bind_map_eq ((takeWords_eq 16).trans (wordList_eq 16)) fun stack => ?_
  refine bind_eq_map fun pc => bind_eq_map fun index => ?_
  rw [bools_bind]
  refine bind_map_eq (takeBytes_eq 16) fun keys => ?_
  refine bind_eq_map fun b => bind_map_eq (f := Option.map (·.val)) ?_ fun awaiting => ?_
  · rw [awaitingOf?_eq, require_map]
  refine bind_eq_map fun running => bind_map_eq (takeScreen_bare m.screen) fun screen => ?_
  refine bind_eq_map fun switches => ?_
  refine bind_eq_map fun b => bind_eq_map fun dialect => bind_eq_map fun redraw => ?_
  refine bind_eq_map fun b => bind_eq_map fun small => ?_
  refine bind_eq_map fun b => bind_eq_map fun big => ?_
  refine bind_eq_map fun background => bind_eq_map fun foreground => ?_
  rw [takeBreakpoints_eq]
  refine bind_eq_map fun breakpoints => ?_
  rw [map_pure]
  have hkeys : lay m.bare.keys 0 (keys.toList.map (· != 0)) = (keys.map (· != 0)).toArray :=
    lay_bools m.keys keys
  rw [hkeys]
  rfl

/-- Restoring any bytes to bare storage gives what the machine restores, or its failure. -/
theorem restore_bare (m : Machine) (bytes : List UInt8) :
    m.bare.restore bytes = (m.restore bytes).map bare := by
  rw [State.restore, restore, take_bare, StateT.run_map]
  cases (Dump.machine m.noise).run bytes <;> rfl

/-! ## Writing -/

theorem dump_bare (m : Machine) : m.bare.dump = m.dump := by
  have hawaiting : (m.bare.awaiting.map UInt8.ofNat).getD noAwaiting = ofAwaiting m.awaiting := by
    show ((m.awaiting.map (·.val)).map UInt8.ofNat).getD noAwaiting = _
    cases m.awaiting <;> rfl
  rw [State.dump, hawaiting, Machine.dump, ofRaster]
  simp only [List.append_assoc]
  rfl

/-! ## Flag registers -/

theorem readFlags_bare (m : Machine) (bytes : List UInt8) :
    m.bare.readFlags bytes = (m.readFlags bytes).2.bare := by
  have hsize : m.bare.flags.size = 8 := m.flags.size_toArray
  have hflags : lay m.bare.flags 0 (bytes.take 8) = (m.readFlags bytes).2.flags.toArray :=
    (lay_toArray m.flags 0 (bytes.take 8)).trans (by simp [readFlags, flag])
  rw [State.readFlags, hsize, hflags]
  rfl

theorem restoreFlags_bare (m : Machine) (bytes : List UInt8) :
    m.bare.restoreFlags bytes = (m.restoreFlags bytes).map bare := by
  have hsize : m.bare.flags.size = 8 := m.flags.size_toArray
  rw [State.restoreFlags, restoreFlags, hsize, m.readFlags_bare]
  by_cases h : bytes.length < 8
  · have hread : m.readFlags bytes = (some .shortRead, (m.readFlags bytes).2) := by
      simp [readFlags, h]
    rw [if_pos h, hread]
    rfl
  · have hread : m.readFlags bytes = (none, (m.readFlags bytes).2) := by
      simp [readFlags, h]
    rw [if_neg h, hread]
    rfl

end Machine
end ChipEight
