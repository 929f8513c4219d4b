import Mathlib.Algebra.GroupWithZero.Nat
import ChipEight.Proofs.Source.Passes

/-!
# What each line contributes

Both passes go over the same lines. The first adds up the sizes of their statements, and gives a
label the sum that was reached; the second emits their bytes. A statement that encodes has as many
bytes as its size says, so the address of a label is the start of the program and the number of
bytes that are emitted before it (`address_of_label`).
-/

namespace ChipEight.Assembly

open Text

/-! ## Lines -/

/-- The labels that a line defines. -/
def definedIn (raw : List Char) : List (List Char) :=
  (SourceLine.ofText raw).names.filter fun name => !isAddressMark name

/-- The statement of a line, if it has one. -/
def statementOf? (raw : List Char) : Option Statement :=
  Statement.ofText? (SourceLine.ofText raw).code

/-- The bytes that the first pass keeps free for a line. -/
def lineSize (raw : List Char) : Nat := ((statementOf? raw).map Statement.size).getD 0

/-- The bytes that a line adds to the program, with given labels. -/
def emitted (labels : Labels) (raw : List Char) : List UInt8 :=
  match statementOf? raw with
  | none => []
  | some statement => (statement.encode labels).toOption.getD []

/-- The labels of a source text. -/
def labelsOf (source : List Char) : Labels :=
  match layOut 1 programStart [] (lines source) with
  | .ok layout => layout.labels
  | .error _ => []

variable {labels defined : Labels} {line address : Nat} {name : List Char} {layout : Layout}

/-! ## Labels in the first pass -/

/-- A name in front of a line is an address mark, or a new name that becomes a label. -/
theorem define_cons_cases {first : List Char} {rest : List (List Char)}
    (h : define line address labels (first :: rest) = .ok defined) :
    (isAddressMark first = true ∧ define line address labels rest = .ok defined) ∨
      (isAddressMark first = false ∧ isName first = true ∧ labels.lookup first = none ∧
        define line address ((first, address) :: labels) rest = .ok defined) := by
  rw [define] at h
  by_cases hmark : isAddressMark first = true
  · rw [if_pos hmark] at h
    exact .inl ⟨hmark, h⟩
  · rw [if_neg hmark] at h
    by_cases hname : isName first = true
    · rw [if_neg (by simp [hname])] at h
      cases hlookup : labels.lookup first with
      | some a => simp [hlookup] at h
      | none =>
        rw [hlookup] at h
        exact .inr ⟨eq_false_of_ne_true hmark, hname, rfl, h⟩
    · rw [if_pos (by simp [hname])] at h
      cases h

/-- A new label hides none of the labels from before. -/
theorem lookup_cons_of_new {first other : List Char} {a : Nat} (hnew : labels.lookup first = none)
    (hother : labels.lookup other = some a) :
    List.lookup other ((first, address) :: labels) = some a := by
  have hne : (other == first) = false := by
    refine beq_eq_false_iff_ne.mpr fun heq => ?_
    rw [heq, hnew] at hother
    cases hother
  rw [List.lookup_cons, hne]
  exact hother

/-- The labels of a line are new and stand at its address; labels from before stay. -/
theorem lookup_define {names : List (List Char)}
    (h : define line address labels names = .ok defined) :
    (∀ {other a}, labels.lookup other = some a → defined.lookup other = some a) ∧
      ∀ name ∈ names, isAddressMark name = false →
        isName name = true ∧ defined.lookup name = some address := by
  induction names generalizing labels with
  | nil =>
    cases h
    exact ⟨fun hother => hother, fun _ hname => absurd hname List.not_mem_nil⟩
  | cons first rest ih =>
    obtain ⟨hmark, h⟩ | ⟨-, hfirst, hnew, h⟩ := define_cons_cases h
    · obtain ⟨hkept, hlater⟩ := ih h
      refine ⟨hkept, fun name hname hname' => ?_⟩
      obtain rfl | hname := List.mem_cons.mp hname
      · rw [hmark] at hname'
        cases hname'
      · exact hlater name hname hname'
    · obtain ⟨hkept, hlater⟩ := ih h
      refine ⟨fun hother => hkept (lookup_cons_of_new hnew hother), fun name hname hname' => ?_⟩
      obtain rfl | hname := List.mem_cons.mp hname
      · exact ⟨hfirst, hkept (by simp)⟩
      · exact hlater name hname hname'

/-- The statement of a line at its place. -/
def placedOn (line address : Nat) (raw : List Char) : Option Placed :=
  (statementOf? raw).map fun statement =>
    { line, text := (SourceLine.ofText raw).code, address, statement }

/-- What a line adds to the layout of the lines behind it. -/
theorem layOut_cons {raw : List Char} {rest : List (List Char)}
    (h : layOut line address labels (raw :: rest) = .ok layout) :
    ∃ defined later, define line address labels (SourceLine.ofText raw).names = .ok defined ∧
      layOut (line + 1) (address + lineSize raw) defined rest = .ok later ∧
      layout.labels = later.labels ∧ layout.stop = later.stop ∧
      layout.placed = (placedOn line address raw).toList ++ later.placed := by
  cases hdefine : define line address labels (SourceLine.ofText raw).names with
  | error failure =>
    rw [layOut] at h
    simp only [hdefine] at h
    cases h
  | ok defined =>
    cases hcode : Statement.ofText? (SourceLine.ofText raw).code with
    | none =>
      rw [layOut_cons_of_none hdefine hcode] at h
      have hsize : lineSize raw = 0 := by rw [lineSize, statementOf?, hcode]; rfl
      refine ⟨defined, layout, rfl, by rwa [hsize], rfl, rfl, ?_⟩
      rw [placedOn, statementOf?, hcode]
      rfl
    | some statement =>
      rw [layOut_cons_of_some hdefine hcode] at h
      have hsize : lineSize raw = statement.size := by rw [lineSize, statementOf?, hcode]; rfl
      cases hlater : layOut (line + 1) (address + statement.size) defined rest with
      | error failure =>
        rw [hlater] at h
        cases h
      | ok later =>
        rw [hlater] at h
        cases h
        refine ⟨defined, later, rfl, by rwa [hsize], rfl, rfl, ?_⟩
        rw [placedOn, statementOf?, hcode]
        rfl

/-- A label stays, whatever lines follow. -/
theorem lookup_layOut {ls : List (List Char)} {a : Nat}
    (h : layOut line address labels ls = .ok layout) (hname : labels.lookup name = some a) :
    layout.labels.lookup name = some a := by
  induction ls generalizing line address labels layout with
  | nil =>
    cases h
    exact hname
  | cons raw rest ih =>
    obtain ⟨defined, later, hdefine, hlater, hlabels, -⟩ := layOut_cons h
    rw [hlabels]
    exact ih hlater ((lookup_define hdefine).1 hname)

/-- A label stands behind the statements before it. -/
theorem lookup_of_mem_definedIn {before after : List (List Char)} {raw : List Char}
    (h : layOut line address labels (before ++ raw :: after) = .ok layout)
    (hname : name ∈ definedIn raw) :
    isName name = true ∧
      layout.labels.lookup name = some (address + (before.map lineSize).sum) := by
  -- Each line before moves the address on by its size. The lines behind keep the label.
  induction before generalizing line address labels layout with
  | nil =>
    obtain ⟨defined, later, hdefine, hlater, hlabels, -⟩ := layOut_cons h
    obtain ⟨hmem, hmark⟩ := List.mem_filter.mp hname
    obtain ⟨hisName, hlookup⟩ :=
      (lookup_define hdefine).2 name hmem (Bool.not_eq_true' _ ▸ hmark)
    refine ⟨hisName, ?_⟩
    rw [hlabels]
    exact lookup_layOut hlater hlookup
  | cons first rest ih =>
    obtain ⟨defined, later, hdefine, hlater, hlabels, -⟩ := layOut_cons h
    obtain ⟨hisName, hlookup⟩ := ih hlater
    refine ⟨hisName, ?_⟩
    rw [hlabels, hlookup, List.map_cons, List.sum_cons, Nat.add_assoc]

/-- The first pass stops behind all statements, and has placed each of them. -/
theorem stop_of_layOut {ls : List (List Char)}
    (h : layOut line address labels ls = .ok layout) :
    layout.stop = address + (ls.map lineSize).sum ∧
      layout.placed.map (·.statement) = ls.filterMap statementOf? := by
  induction ls generalizing line address labels layout with
  | nil =>
    cases h
    exact ⟨rfl, rfl⟩
  | cons raw rest ih =>
    obtain ⟨defined, later, -, hlater, -, hstop, hplaced⟩ := layOut_cons h
    obtain ⟨hstop', hplaced'⟩ := ih hlater
    constructor
    · rw [hstop, hstop', List.map_cons, List.sum_cons, Nat.add_assoc]
    · rw [hplaced, List.map_append, hplaced', List.filterMap_cons, placedOn]
      cases statementOf? raw <;> rfl

/-! ## Bytes in the second pass -/

theorem length_valueBytes {max width : Nat} {bytes : Nat → List UInt8} {flaw : String → SourceFlaw}
    (hwidth : ∀ n, (bytes n).length = width) {values : List (List Char)} {out : List UInt8}
    (h : valueBytes max bytes flaw values = .ok out) : out.length = width * values.length := by
  induction values generalizing out with
  | nil =>
    cases h
    rfl
  | cons s rest ih =>
    rw [valueBytes] at h
    cases hs : numberUpTo? max s with
    | none =>
      rw [hs] at h
      cases h
    | some n =>
      cases hrest : valueBytes max bytes flaw rest with
      | error failure =>
        simp only [hs, hrest] at h
        cases h
      | ok more =>
        simp only [hs, hrest] at h
        cases h
        rw [List.length_append, hwidth, ih hrest, List.length_cons, Nat.mul_succ, Nat.add_comm]

/-- A statement has as many bytes as its size says. -/
theorem length_of_encode {statement : Statement} {bytes : List UInt8}
    (h : statement.encode labels = .ok bytes) : bytes.length = statement.size := by
  cases statement with
  | instruction mnemonic operands =>
    rw [Statement.encode] at h
    cases hword : encode labels mnemonic operands with
    | error flaw =>
      rw [hword] at h
      cases h
    | ok w =>
      rw [hword] at h
      cases h
      rfl
  | bytes values =>
    have hwidth : ∀ n, [UInt8.ofNat n].length = 1 := fun _ => rfl
    rw [length_valueBytes hwidth h, Nat.one_mul, Statement.size]
  | words values =>
    have hwidth : ∀ n, (splitWord (UInt16.ofNat n)).length = 2 := fun _ => rfl
    exact length_valueBytes hwidth h

/-- The second pass encodes the first statement, then those behind its bytes. -/
theorem encodeAll_cons {p : Placed} {rest : List Placed} {result : Assembled}
    (h : encodeAll labels address (p :: rest) = .ok result) :
    ∃ bytes later, p.statement.encode labels = .ok bytes ∧
      encodeAll labels (address + bytes.length) rest = .ok later ∧
      result = { program := bytes ++ later.program
                 notices := noticeOf address p bytes ++ later.notices } := by
  rw [encodeAll] at h
  cases hp : p.statement.encode labels with
  | error flaw =>
    rw [hp] at h
    cases h
  | ok bytes =>
    cases hlater : encodeAll labels (address + bytes.length) rest with
    | error failure =>
      simp only [hp, hlater] at h
      cases h
    | ok later =>
      simp only [hp, hlater] at h
      cases h
      exact ⟨bytes, later, rfl, hlater, rfl⟩

/-- Statements that are assembled encode. -/
theorem encodes_of_encodeAll {placed : List Placed} {result : Assembled}
    (h : encodeAll labels address placed = .ok result) : Encodes labels placed result.program := by
  induction placed generalizing address result with
  | nil =>
    cases h
    exact .nil
  | cons p rest ih =>
    obtain ⟨bytes, later, hp, hlater, rfl⟩ := encodeAll_cons h
    exact .cons hp (ih hlater)

/-- The bytes of the statements of lines are the bytes of the lines. -/
theorem Encodes.eq_flatMap_emitted {placed : List Placed} {bytes : List UInt8}
    {ls : List (List Char)} (h : Encodes labels placed bytes)
    (hplaced : placed.map (·.statement) = ls.filterMap statementOf?) :
    bytes = ls.flatMap (emitted labels) ∧
      ∀ raw ∈ ls, (emitted labels raw).length = lineSize raw := by
  induction ls generalizing placed bytes with
  | nil =>
    obtain rfl := List.map_eq_nil_iff.mp hplaced
    cases h
    exact ⟨rfl, fun _ hraw => absurd hraw List.not_mem_nil⟩
  | cons raw rest ih =>
    cases hstatement : statementOf? raw with
    | none =>
      have hemitted : emitted labels raw = [] := by rw [emitted, hstatement]
      rw [List.filterMap_cons_none hstatement] at hplaced
      obtain ⟨hbytes, hlengths⟩ := ih h hplaced
      refine ⟨by rw [List.flatMap_cons, hemitted, hbytes]; rfl, fun other hother => ?_⟩
      obtain rfl | hother := List.mem_cons.mp hother
      · rw [hemitted, lineSize, hstatement]
        rfl
      · exact hlengths other hother
    | some statement =>
      rw [List.filterMap_cons_some hstatement] at hplaced
      cases h with
      | nil => cases hplaced
      | @cons p own others more head tail =>
        obtain ⟨hp, hothers⟩ := List.cons.inj hplaced
        have hp : p.statement = statement := hp
        rw [hp] at head
        have hemitted : emitted labels raw = own := by
          rw [emitted, hstatement]
          show (statement.encode labels).toOption.getD [] = own
          rw [head]
          rfl
        obtain ⟨hbytes, hlengths⟩ := ih tail hothers
        refine ⟨by rw [List.flatMap_cons, hemitted, hbytes], fun other hother => ?_⟩
        obtain rfl | hother := List.mem_cons.mp hother
        · rw [hemitted, length_of_encode head, lineSize, hstatement]
          rfl
        · exact hlengths other hother

/-! ## Both passes -/

/-- What is known of a source text that assembles. -/
structure Assembles (source : List Char) (program : List UInt8) : Prop where
  layout : ∃ layout, layOut 1 programStart [] (lines source) = .ok layout ∧
    layout.labels = labelsOf source
  bytes : program = (lines source).flatMap (emitted (labelsOf source))
  lengths : ∀ raw ∈ lines source, (emitted (labelsOf source) raw).length = lineSize raw
  fits : program.length ≤ maxProgramSize

theorem sum_lineSize {ls : List (List Char)}
    (h : ∀ raw ∈ ls, (emitted labels raw).length = lineSize raw) :
    (ls.map lineSize).sum = (ls.flatMap (emitted labels)).length := by
  rw [List.length_flatMap, List.map_congr_left h]

/-- The passes of a source text that assembles: the first finds a layout that fits in memory, the
second encodes it. -/
theorem passes_of_ofCharacters {source : List Char} {assembled : Assembled}
    (h : ofCharacters source = .ok assembled) :
    ∃ layout, layOut 1 programStart [] (lines source) = .ok layout ∧
      layout.stop - programStart ≤ maxProgramSize ∧
      encodeAll layout.labels programStart layout.placed = .ok assembled := by
  cases hlayout : layOut 1 programStart [] (lines source) with
  | error failure =>
    rw [ofCharacters, hlayout] at h
    cases h
  | ok layout =>
    have hsize : layout.stop - programStart ≤ maxProgramSize := by
      refine Nat.le_of_not_lt fun hlarge => ?_
      rw [ofCharacters, hlayout] at h
      simp only [bind, Except.bind] at h
      rw [if_pos hlarge] at h
      cases h
    rw [ofCharacters_of_layOut hlayout hsize] at h
    exact ⟨layout, rfl, hsize, h⟩

theorem assembles_of_ofCharacters {source : List Char} {assembled : Assembled}
    (h : ofCharacters source = .ok assembled) : Assembles source assembled.program := by
  obtain ⟨layout, hlayout, hsize, hencode⟩ := passes_of_ofCharacters h
  have hlabels : layout.labels = labelsOf source := by rw [labelsOf, hlayout]
  obtain ⟨hstop, hplaced⟩ := stop_of_layOut hlayout
  obtain ⟨hprogram, hlengths⟩ := (encodes_of_encodeAll hencode).eq_flatMap_emitted hplaced
  rw [hlabels] at hprogram hlengths
  refine ⟨⟨layout, hlayout, hlabels⟩, hprogram, hlengths, ?_⟩
  rw [hprogram, ← sum_lineSize hlengths]
  omega

variable {source : List Char} {program : List UInt8} {before after : List (List Char)}
  {raw : List Char}

/-- The bytes of a line stand behind those of the lines before it. -/
theorem Assembles.program_eq (h : Assembles source program)
    (hlines : lines source = before ++ raw :: after) :
    program = before.flatMap (emitted (labelsOf source)) ++
      (emitted (labelsOf source) raw ++ after.flatMap (emitted (labelsOf source))) := by
  rw [h.bytes, hlines, List.flatMap_append, List.flatMap_cons]

/-- A label names the address that the program has reached before its line. -/
theorem address_of_label (h : Assembles source program)
    (hlines : lines source = before ++ raw :: after) (hname : name ∈ definedIn raw) :
    isName name = true ∧ (labelsOf source).lookup name =
      some (programStart + (before.flatMap (emitted (labelsOf source))).length) := by
  obtain ⟨layout, hlayout, hlabels⟩ := h.layout
  have hlengths := h.lengths
  rw [hlines] at hlayout hlengths
  obtain ⟨hisName, hlookup⟩ := lookup_of_mem_definedIn hlayout hname
  refine ⟨hisName, ?_⟩
  rw [← hlabels, hlookup, hlabels,
    sum_lineSize fun raw hraw => hlengths raw (List.mem_append_left _ hraw)]

end ChipEight.Assembly
