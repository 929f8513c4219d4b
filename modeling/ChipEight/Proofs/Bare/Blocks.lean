import ChipEight.Proofs.Bare.Storage
import ChipEight.Proofs.Machine.Loading

/-!
# Blocks in bare memory

A block is held against the room behind its address, and if it is not too long it is copied to its
place. The room is a difference that is cut off at zero, while the place is where the address says.
Behind the end of memory the two do not agree: there is no room, so no byte is ever copied there,
but an empty block needs none, and its place is not in memory. This is the only way in which storing
a block stops a computation.
-/

namespace ChipEight
namespace Bare

/-! ## Storing over bare memory -/

/-- Stores a block at an address. There is an answer, and memory after it. -/
def store (memory : Array UInt8) (a : UInt16) (block : List UInt8) :
    Option (Except Misfit Unit × Array UInt8) :=
  let room := memory.size - a.toNat
  if block.length > room then some (.error (.tooLarge block.length room), memory)
  else do
    let memory ← splice memory a.toNat block
    pure (.ok (), memory)

/-- Stores a block at an address, and answers how long it was. -/
def storeAny (memory : Array UInt8) (a : UInt16) (block : List UInt8) :
    Option (Except Misfit Nat × Array UInt8) := do
  let (answer, memory) ← store memory a block
  pure (answer.map fun _ => block.length, memory)

/-- Bare memory with the address at which it loads programs. -/
structure Map where
  bytes : Array UInt8
  start : UInt16

/-- Loads a program at the start address, and answers how long it was. -/
def Map.load (m : Map) (program : List UInt8) : Option (Except Misfit Nat × Map) := do
  let (answer, bytes) ← storeAny m.bytes m.start program
  pure (answer, { m with bytes })

end Bare

/-! ## Blocks that do not fit -/

namespace Ram

variable {m : Ram} {a : UInt16} {block : List UInt8}

theorem store_of_tooLarge (h : memorySize < a.toNat + block.length) (hblock : block ≠ []) :
    m.store a block = .error (.tooLarge block.length (memorySize - a.toNat)) := by
  have hlength : 0 < block.length := List.length_pos_iff.mpr hblock
  have hroom : block.length > memorySize - a.toNat := by omega
  rw [store]
  exact if_pos hroom

theorem store_nil_of_outside (h : memorySize < a.toNat) : m.store a [] = .error .startsOutside := by
  have hroom : ¬([] : List UInt8).length > memorySize - a.toNat := Nat.not_lt_zero _
  rw [store]
  exact (if_neg hroom).trans (if_pos h)

/-- A block fits, or it is too long for the room behind its address, or it is empty and has no
place. -/
theorem fits_or (a : UInt16) (block : List UInt8) : a.toNat + block.length ≤ memorySize ∨
    (memorySize < a.toNat + block.length ∧ block ≠ []) ∨ block = [] ∧ memorySize < a.toNat := by
  cases block with
  | nil =>
    rcases Nat.lt_or_ge memorySize a.toNat with h | h
    · exact .inr (.inr ⟨rfl, h⟩)
    · exact .inl h
  | cons b rest =>
    rcases Nat.lt_or_ge memorySize (a.toNat + (b :: rest).length) with h | h
    · exact .inr (.inl ⟨h, nofun⟩)
    · exact .inl h

end Ram

namespace MemoryMap

variable {program : List UInt8}

theorem load_of_fits (m : MemoryMap) (h : m.start.toNat + program.length ≤ memorySize) :
    m.load program = .ok { m with ram := m.ram.overlay m.start.toNat program } := by
  rw [load, Ram.store_of_fits h]
  rfl

theorem load_of_tooLarge (m : MemoryMap) (h : memorySize < m.start.toNat + program.length)
    (hprogram : program ≠ []) :
    m.load program = .error (.tooLarge program.length (memorySize - m.start.toNat)) := by
  rw [load, Ram.store_of_tooLarge h hprogram]
  rfl

/-- A program that is not loaded behind the end of memory has a place. -/
theorem load_ne_startsOutside (m : MemoryMap) (h : m.start.toNat ≤ memorySize) :
    m.load program ≠ .error .startsOutside := by
  rcases Ram.fits_or m.start program with hfits | ⟨hlong, hprogram⟩ | ⟨-, houtside⟩
  · rw [m.load_of_fits hfits]
    nofun
  · rw [m.load_of_tooLarge hlong hprogram]
    nofun
  · exact absurd houtside (Nat.not_lt.mpr h)

/-- Memory without its promises, with the address at which it loads programs. -/
def bare (m : MemoryMap) : Bare.Map := { bytes := m.ram.cells.toArray, start := m.start }

end MemoryMap

/-! ## Agreement -/

namespace Bare

/-- A block that fits is spliced in just as it is laid over memory. -/
theorem splice_overlay (m : Ram) {start : Nat} {block : List UInt8}
    (h : start + block.length ≤ memorySize) :
    splice m.cells.toArray start block = some (m.overlay start block).cells.toArray := by
  rw [Ram.overlay, ← lay_toArray]
  exact splice_toArray m.cells (by decide) h

theorem splice_nil_of_outside {memory : Array UInt8} {start : Nat} (h : memory.size < start) :
    splice memory start [] = none := by
  rw [splice, sum]
  split
  · exact if_neg (Nat.not_le.mpr h)
  · rfl

/-- Bare memory stops where a block has no place, and does as memory does otherwise. -/
theorem store_toArray (m : Ram) (a : UInt16) (block : List UInt8) :
    store m.cells.toArray a block =
      match m.store a block with
      | .ok next => some (.ok (), next.cells.toArray)
      | .error .startsOutside => none
      | .error (.tooLarge size room) => some (.error (.tooLarge size room), m.cells.toArray) := by
  have hsize : m.cells.toArray.size = memorySize := m.cells.size_toArray
  rw [store, hsize]
  rcases Ram.fits_or a block with h | ⟨h, hblock⟩ | ⟨rfl, h⟩
  · have hroom : ¬block.length > memorySize - a.toNat := by omega
    rw [Ram.store_of_fits h, splice_overlay m h]
    exact if_neg hroom
  · have hlength : 0 < block.length := List.length_pos_iff.mpr hblock
    have hroom : block.length > memorySize - a.toNat := by omega
    rw [Ram.store_of_tooLarge h hblock]
    exact if_pos hroom
  · rw [Ram.store_nil_of_outside h, splice_nil_of_outside (hsize.symm ▸ h)]
    exact if_neg (Nat.not_lt_zero _)

theorem store_eq_none_iff (m : Ram) (a : UInt16) (block : List UInt8) :
    store m.cells.toArray a block = none ↔ block = [] ∧ memorySize < a.toNat := by
  rw [store_toArray]
  rcases Ram.fits_or a block with h | ⟨h, hblock⟩ | ⟨rfl, h⟩
  · rw [Ram.store_of_fits h]
    refine iff_of_false nofun fun hnil => ?_
    omega
  · rw [Ram.store_of_tooLarge h hblock]
    exact iff_of_false nofun fun hnil => hblock hnil.1
  · rw [Ram.store_nil_of_outside h]
    exact iff_of_true rfl ⟨rfl, h⟩

/-- Bare memory loads a program as memory does, at whatever address it loads programs. -/
theorem Map.load_bare (m : MemoryMap) (program : List UInt8) :
    m.bare.load program =
      match m.load program with
      | .ok next => some (.ok program.length, next.bare)
      | .error .startsOutside => none
      | .error (.tooLarge size room) => some (.error (.tooLarge size room), m.bare) := by
  rw [Map.load, storeAny, MemoryMap.load]
  show (store m.ram.cells.toArray m.start program >>= _) >>= _ = _
  rw [store_toArray]
  cases m.ram.store m.start program with
  | ok next => rfl
  | error misfit => cases misfit <;> rfl

theorem storeAny_eq_none_iff (m : Ram) (a : UInt16) (block : List UInt8) :
    storeAny m.cells.toArray a block = none ↔ block = [] ∧ memorySize < a.toNat := by
  rw [← store_eq_none_iff, storeAny]
  cases store m.cells.toArray a block with
  | none => exact iff_of_true rfl rfl
  | some answer => exact iff_of_false nofun nofun

theorem load_eq_none_iff (m : MemoryMap) (program : List UInt8) :
    m.bare.load program = none ↔ program = [] ∧ memorySize < m.start.toNat := by
  rw [← storeAny_eq_none_iff m.ram, Map.load, MemoryMap.bare]
  cases storeAny m.ram.cells.toArray m.start program with
  | none => exact iff_of_true rfl rfl
  | some answer => exact iff_of_false nofun nofun

/-- Storing stops a computation for empty blocks behind the end of memory and for no others. A block
that fits takes the place of as many bytes, and one that is too long is refused with the room that
there is, wherever it starts, and changes nothing. Loading a program is storing it at the start
address of memory, and never stops a computation at the usual one. -/
theorem store_block (m : Ram) (a : UInt16) (block : List UInt8) :
    let map : MemoryMap := { ram := m, start := a }
    (a.toNat + block.length ≤ memorySize → ∃ next : Ram, m.store a block = .ok next ∧
      store m.cells.toArray a block = some (.ok (), next.cells.toArray) ∧
      map.bare.load block = some (.ok block.length, { map with ram := next }.bare) ∧
      next.toList = m.toList.take a.toNat ++ (block ++ m.toList.drop (a.toNat + block.length))) ∧
    (memorySize < a.toNat + block.length → block ≠ [] →
      store m.cells.toArray a block =
        some (.error (.tooLarge block.length (memorySize - a.toNat)), m.cells.toArray) ∧
      map.bare.load block =
        some (.error (.tooLarge block.length (memorySize - a.toNat)), map.bare)) ∧
    (store m.cells.toArray a block = none ↔ block = [] ∧ memorySize < a.toNat) ∧
    (storeAny m.cells.toArray a block = none ↔ block = [] ∧ memorySize < a.toNat) ∧
    (map.bare.load block = none ↔ block = [] ∧ memorySize < a.toNat) ∧
    ({ ram := m } : MemoryMap).bare.load block ≠ none := by
  intro map
  refine ⟨fun h => ?_, fun h hblock => ?_, store_eq_none_iff m a block,
    storeAny_eq_none_iff m a block, load_eq_none_iff map block, fun hload => ?_⟩
  · refine ⟨m.overlay a.toNat block, Ram.store_of_fits h, ?_, ?_, m.toList_overlay h⟩
    · rw [store_toArray, Ram.store_of_fits h]
    · rw [Map.load_bare, map.load_of_fits h]
  · refine ⟨?_, ?_⟩
    · rw [store_toArray, Ram.store_of_tooLarge h hblock]
    · rw [Map.load_bare, map.load_of_tooLarge h hblock]
  · have houtside : memorySize < (UInt16.ofNat programStart).toNat :=
      ((load_eq_none_iff _ block).mp hload).2
    exact absurd houtside (by decide)

/-- Two bytes that fit, stored and loaded, and the same two bytes at the last address. -/
theorem store_block_at_the_end :
    let m : Ram := {}
    let map : MemoryMap := { ram := m, start := 0xFFE }
    (∃ next : Ram, store m.cells.toArray 0xFFE [0x12, 0x34] = some (.ok (), next.cells.toArray) ∧
      map.bare.load [0x12, 0x34] = some (.ok 2, { map with ram := next }.bare) ∧
      next.toList = m.toList.take 0xFFE ++ [0x12, 0x34]) ∧
    store m.cells.toArray 0xFFF [0x12, 0x34] = some (.error (.tooLarge 2 1), m.cells.toArray) := by
  intro m map
  obtain ⟨next, -, hstore, hload, hlist⟩ := (store_block m 0xFFE [0x12, 0x34]).1 (by decide)
  have hbehind : m.toList.drop 4096 = [] :=
    List.drop_eq_nil_of_le (Nat.le_of_eq m.length_toList)
  refine ⟨⟨next, hstore, hload, ?_⟩,
    ((store_block m 0xFFF [0x12, 0x34]).2.1 (by decide) nofun).1⟩
  rw [hlist]
  show m.toList.take 0xFFE ++ ([0x12, 0x34] ++ m.toList.drop 4096) = _
  rw [hbehind]
  rfl

/-- An empty block one address behind the end of memory has no place, and stops a computation. So
does an empty program, for memory that loads programs there. -/
theorem store_nil_behind_memory :
    let m : Ram := {}
    let map : MemoryMap := { ram := m, start := 4097 }
    m.store 4097 [] = .error .startsOutside ∧ store m.cells.toArray 4097 [] = none ∧
      map.bare.load [] = none := by
  intro m map
  have hnowhere : m.store 4097 [] = .error .startsOutside := Ram.store_nil_of_outside (by decide)
  refine ⟨hnowhere, ?_, (load_eq_none_iff map []).mpr ⟨rfl, by decide⟩⟩
  rw [store_toArray, hnowhere]

end Bare
end ChipEight
