import ChipEight.Machine.State

/-!
# Loaded programs

A program that fits is laid over memory from the start address on, and nothing else in the machine
changes. Fonts are laid over the cells in front of it.
-/

namespace ChipEight
namespace Ram

theorem read_eq_get (m : Ram) (a : UInt16) : m.read a = m.cells.get (cell a) := rfl

theorem get_overlay (m : Ram) (start : Nat) (block : List UInt8) (i : Fin 4096) :
    (m.overlay start block).cells.get i =
      if start ≤ i.val then block[i.val - start]?.getD (m.cells.get i) else m.cells.get i := by
  show (m.overlay start block).cells[i] = _
  simp only [overlay, Fin.getElem_fin, Vector.getElem_ofFn, List.getElem?_toArray]
  rfl

/-- A block takes the place of as many bytes. -/
theorem toList_overlay (m : Ram) {start : Nat} {block : List UInt8}
    (h : start + block.length ≤ memorySize) :
    (m.overlay start block).toList =
      m.toList.take start ++ (block ++ m.toList.drop (start + block.length)) := by
  have hmemory : memorySize = 4096 := rfl
  have htake : (m.toList.take start).length = start := by
    rw [List.length_take, length_toList]
    omega
  refine List.ext_getElem? fun i => ?_
  by_cases hi : i < 4096
  · have hnew : (m.overlay start block).toList[i]? =
        some (if start ≤ i then block[i - start]?.getD m.cells[i] else m.cells[i]) := by
      simp [toList, overlay, hi]
    have hold : m.toList[i]? = some m.cells[i] := by
      simp [toList, hi]
    rw [hnew]
    by_cases hbefore : i < start
    · rw [if_neg (Nat.not_le.mpr hbefore), List.getElem?_append_left (by omega),
        List.getElem?_take_of_lt hbefore, hold]
    · have hle := Nat.le_of_not_lt hbefore
      rw [if_pos hle, List.getElem?_append_right (by omega), htake]
      by_cases hinside : i - start < block.length
      · rw [List.getElem?_append_left hinside, List.getElem?_eq_getElem hinside, Option.getD_some]
      · have hnone : block[i - start]? = none := List.getElem?_eq_none (Nat.le_of_not_lt hinside)
        have hplace : start + block.length + (i - start - block.length) = i := by omega
        rw [hnone, List.getElem?_append_right (Nat.le_of_not_lt hinside), List.getElem?_drop,
          hplace, hold, Option.getD_none]
  · have hlength : (m.overlay start block).toList.length = 4096 := length_toList _
    rw [List.getElem?_eq_none (by omega), List.getElem?_eq_none]
    simp only [List.length_append, List.length_drop, length_toList, htake]
    omega

theorem store_of_fits {m : Ram} {a : UInt16} {block : List UInt8}
    (h : a.toNat + block.length ≤ memorySize) :
    m.store a block = .ok (m.overlay a.toNat block) := by
  have hroom : ¬block.length > memorySize - a.toNat := by omega
  have hinside : ¬a.toNat > memorySize := by omega
  rw [store]
  exact (if_neg hroom).trans (if_neg hinside)

theorem load_of_fits (m : Ram) {program : List UInt8} (h : program.length ≤ maxProgramSize) :
    m.load program = .ok (m.overlay programStart program) := by
  have hstart : (UInt16.ofNat programStart).toNat = programStart := rfl
  have hsize : programStart + maxProgramSize = memorySize := by decide
  rw [load_eq, store_of_fits (by omega), hstart]

/-- The bytes of a program stand one after another behind the start address. -/
theorem read_overlay (m : Ram) {program : List UInt8} (h : program.length ≤ maxProgramSize) {i : Nat}
    (hi : i < program.length) :
    (m.overlay programStart program).read (UInt16.ofNat (programStart + i)) = program[i] := by
  have hsize : programStart + maxProgramSize = memorySize := by decide
  have hmemory : memorySize = 4096 := rfl
  have hcell : (cell (UInt16.ofNat (programStart + i))).val = programStart + i := by
    show (UInt16.ofNat (programStart + i)).toNat % 4096 = programStart + i
    rw [UInt16.toNat_ofNat']
    omega
  rw [read_eq_get, get_overlay]
  simp only [hcell, Nat.le_add_right, if_true, Nat.add_sub_cancel_left, List.getElem?_eq_getElem hi,
    Option.getD_some]

/-- All other cells stay as they are. -/
theorem get_overlay_of_outside (m : Ram) (program : List UInt8) {i : Fin 4096}
    (h : i.val < programStart ∨ programStart + program.length ≤ i.val) :
    (m.overlay programStart program).cells.get i = m.cells.get i := by
  rw [get_overlay]
  split
  · rw [List.getElem?_eq_none (by omega), Option.getD_none]
  · rfl

/-- The glyphs of two fonts take the first 240 cells, and leave the others as they are. -/
theorem toList_withFonts (m : Ram) (fonts : Fonts) :
    (m.withFonts fonts).toList =
      fonts.small.glyphs ++ (fonts.big.glyphs ++ m.toList.drop 240) := by
  have hsmall : fonts.small.glyphs.length = 80 := fonts.small.length_glyphs
  have hbig : fonts.big.glyphs.length = 160 := fonts.big.length_glyphs
  have hlower : (m.overlay smallGlyphs fonts.small.glyphs).toList =
      fonts.small.glyphs ++ m.toList.drop 80 := by
    rw [toList_overlay m (by rw [hsmall]; decide), hsmall]
    rfl
  rw [withFonts, toList_overlay _ (by rw [hbig]; decide), hlower, hbig]
  show (fonts.small.glyphs ++ m.toList.drop 80).take 80 ++
    (fonts.big.glyphs ++ (fonts.small.glyphs ++ m.toList.drop 80).drop 240) = _
  rw [List.take_left' hsmall, List.drop_append, List.drop_eq_nil_of_le (by omega), hsmall,
    List.drop_drop, List.nil_append]

end Ram

/-- A program that fits can be loaded, and changes nothing but the memory it is laid over. -/
theorem Machine.loadProgram_of_fits (m : Machine) {program : List UInt8}
    (h : program.length ≤ maxProgramSize) :
    m.loadProgram program = .ok { m with ram := m.ram.overlay programStart program } := by
  rw [loadProgram, m.ram.load_of_fits h]

end ChipEight
