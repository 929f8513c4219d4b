import ChipEight.Proofs.Machine.Loading
import ChipEight.Proofs.Source.Emission

/-!
# Where statements stand

The first pass gives out addresses by the sizes of statements, before any of them is encoded. The
second emits bytes one after another and counts for itself. They agree all the same: a statement has
its bytes at the address that it was given, and a label has the address that is reached by the bytes
in front of it. A program that comes out of both passes fits in memory, so every machine can load
it.
-/

namespace ChipEight.Assembly

open Text

variable {labels defined : Labels} {line address stop a : Nat} {name : List Char} {layout : Layout}
  {ls : List (List Char)} {p : Placed} {placed before after : List Placed} {out : List UInt8}

/-! ## Statements in the first pass -/

/-- Statements stand one behind another between two addresses. -/
inductive Adjoin : Nat → List Placed → Nat → Prop
  | nil (address : Nat) : Adjoin address [] address
  | cons {p : Placed} {rest : List Placed} {stop : Nat}
      (tail : Adjoin (p.address + p.statement.size) rest stop) : Adjoin p.address (p :: rest) stop

theorem adjoin_of_layOut (h : layOut line address labels ls = .ok layout) :
    Adjoin address layout.placed layout.stop := by
  induction ls generalizing line address labels layout with
  | nil =>
    cases h
    exact .nil address
  | cons raw rest ih =>
    obtain ⟨defined, later, -, hlater, -, hstop, hplaced⟩ := layOut_cons h
    have hrest := ih hlater
    rw [hstop, hplaced, placedOn]
    rw [lineSize] at hrest
    cases hstatement : statementOf? raw with
    | none =>
      rw [hstatement] at hrest
      exact hrest
    | some statement =>
      rw [hstatement] at hrest
      exact .cons (p := ⟨line, _, address, statement⟩) hrest

/-- A statement has the address that those before it leave. -/
theorem Adjoin.address_eq (h : Adjoin address (before ++ p :: after) stop) :
    p.address = address + (before.map (·.statement.size)).sum := by
  induction before generalizing address with
  | nil =>
    cases h
    rfl
  | cons first rest ih =>
    cases h with
    | cons tail => rw [ih tail, List.map_cons, List.sum_cons, Nat.add_assoc]

/-! ## Labels in the first pass -/

/-- A label after a line was one before, or the line defines it at its address. -/
theorem lookup_of_define {names : List (List Char)}
    (h : define line address labels names = .ok defined) (hname : defined.lookup name = some a) :
    labels.lookup name = some a ∨ name ∈ names ∧ isAddressMark name = false ∧ a = address := by
  induction names generalizing labels with
  | nil =>
    cases h
    exact .inl hname
  | cons first rest ih =>
    obtain ⟨-, h⟩ | ⟨hmark, -, -, h⟩ := define_cons_cases h
    · obtain hbefore | ⟨hmem, hown⟩ := ih h
      · exact .inl hbefore
      · exact .inr ⟨List.mem_cons_of_mem _ hmem, hown⟩
    · obtain hbefore | ⟨hmem, hown⟩ := ih h
      · by_cases heq : name = first
        · subst heq
          rw [List.lookup_cons_self] at hbefore
          exact .inr ⟨List.mem_cons_self, hmark, (Option.some.inj hbefore).symm⟩
        · rw [List.lookup_cons, beq_false_of_ne heq] at hbefore
          exact .inl hbefore
      · exact .inr ⟨List.mem_cons_of_mem _ hmem, hown⟩

/-- A label of a layout was one before, or one of its lines defines it. -/
theorem mem_definedIn_of_lookup (h : layOut line address labels ls = .ok layout)
    (hname : layout.labels.lookup name = some a) :
    labels.lookup name = some a ∨ ∃ before raw after, ls = before ++ raw :: after ∧
      name ∈ definedIn raw ∧ a = address + (before.map lineSize).sum := by
  induction ls generalizing line address labels layout with
  | nil =>
    cases h
    exact .inl hname
  | cons raw rest ih =>
    obtain ⟨defined, later, hdefine, hlater, hlabels, -⟩ := layOut_cons h
    rw [hlabels] at hname
    obtain hdefined | ⟨before, own, after, rfl, hmem, ha⟩ := ih hlater hname
    · obtain hbefore | ⟨hmem, hmark, ha⟩ := lookup_of_define hdefine hdefined
      · exact .inl hbefore
      · have hown : name ∈ definedIn raw := List.mem_filter.mpr ⟨hmem, by simp [hmark]⟩
        exact .inr ⟨[], raw, rest, rfl, hown, ha⟩
    · refine .inr ⟨raw :: before, own, after, rfl, hmem, ?_⟩
      rw [ha, List.map_cons, List.sum_cons, Nat.add_assoc]

/-! ## Bytes in the second pass -/

/-- The bytes that a placed statement adds to the program, with given labels. -/
def Placed.bytes (labels : Labels) (p : Placed) : List UInt8 :=
  (p.statement.encode labels).toOption.getD []

theorem Placed.bytes_of_encode (h : p.statement.encode labels = .ok out) :
    p.bytes labels = out := by
  rw [Placed.bytes, h]
  rfl

theorem Encodes.eq_flatMap_bytes (h : Encodes labels placed out) :
    out = placed.flatMap (Placed.bytes labels) ∧
      ∀ p ∈ placed, p.statement.encode labels = .ok (p.bytes labels) := by
  induction h with
  | nil => exact ⟨rfl, fun _ hp => absurd hp List.not_mem_nil⟩
  | @cons p own rest more head tail ih =>
    obtain ⟨hmore, hrest⟩ := ih
    have hown := Placed.bytes_of_encode head
    refine ⟨by rw [List.flatMap_cons, hown, ← hmore], fun q hq => ?_⟩
    obtain rfl | hq := List.mem_cons.mp hq
    · rw [hown, head]
    · exact hrest q hq

/-- As many bytes are emitted as the sizes say. -/
theorem sum_size (h : ∀ p ∈ placed, p.statement.encode labels = .ok (p.bytes labels)) :
    (placed.map (·.statement.size)).sum = (placed.flatMap (Placed.bytes labels)).length := by
  rw [List.length_flatMap, List.map_congr_left fun p hp => (length_of_encode (h p hp)).symm]

/-- The second pass counts addresses on its own, and comes to those of the first. -/
theorem notices_of_encodeAll {assembled : Assembled} (hadjoin : Adjoin address placed stop)
    (h : encodeAll labels address placed = .ok assembled) :
    assembled.notices = placed.flatMap fun p => noticeOf p.address p (p.bytes labels) := by
  induction hadjoin generalizing assembled with
  | nil =>
    cases h
    rfl
  | @cons p rest stop tail ih =>
    obtain ⟨bytes, later, hp, hlater, rfl⟩ := encodeAll_cons h
    rw [length_of_encode hp] at hlater
    rw [List.flatMap_cons, ← ih hlater, Placed.bytes_of_encode hp]

/-! ## Both passes -/

/-- What the first pass plans for lines is what the second pass does. -/
structure Agree (ls : List (List Char)) (layout : Layout) (assembled : Assembled) : Prop where
  /-- The first pass stops where the program ends. -/
  stop : layout.stop = programStart + assembled.program.length
  /-- The statements of the lines are placed, and no others. -/
  statements : layout.placed.map (·.statement) = ls.filterMap statementOf?
  /-- They encode, and the program is their bytes one after another. -/
  program : assembled.program = layout.placed.flatMap (Placed.bytes layout.labels) ∧
    ∀ p ∈ layout.placed, p.statement.encode layout.labels = .ok (p.bytes layout.labels)
  /-- The bytes of a statement start at its address. -/
  start : ∀ before p after, layout.placed = before ++ p :: after →
    p.address = programStart + (before.flatMap (Placed.bytes layout.labels)).length ∧
      p.bytes layout.labels <+: assembled.program.drop (p.address - programStart)
  /-- The records of the second pass bear the addresses of the first. -/
  notices : assembled.notices =
    layout.placed.flatMap fun p => noticeOf p.address p (p.bytes layout.labels)
  /-- The labels are those that lines define, each behind the bytes of the lines before it. -/
  labels : ∀ name a, layout.labels.lookup name = some a ↔
    ∃ before raw after, ls = before ++ raw :: after ∧ name ∈ definedIn raw ∧
      a = programStart + (before.flatMap (emitted layout.labels)).length

theorem agree_of_ofCharacters {source : List Char} {assembled : Assembled}
    (h : ofCharacters source = .ok assembled) :
    ∃ layout, layOut 1 programStart [] (lines source) = .ok layout ∧
      Agree (lines source) layout assembled := by
  obtain ⟨layout, hlayout, -, hencode⟩ := passes_of_ofCharacters h
  obtain ⟨hstop, hstatements⟩ := stop_of_layOut hlayout
  have hadjoin := adjoin_of_layOut hlayout
  have hencodes := encodes_of_encodeAll hencode
  obtain ⟨hprogram, hencoded⟩ := hencodes.eq_flatMap_bytes
  obtain ⟨hlines, hlengths⟩ := hencodes.eq_flatMap_emitted hstatements
  have hsum : ∀ {before : List (List Char)}, (∀ raw ∈ before, raw ∈ lines source) →
      (before.map lineSize).sum = (before.flatMap (emitted layout.labels)).length :=
    fun hbefore => sum_lineSize fun raw hraw => hlengths raw (hbefore raw hraw)
  refine ⟨layout, hlayout, ?_, hstatements, ⟨hprogram, hencoded⟩, ?_,
    notices_of_encodeAll hadjoin hencode, ?_⟩
  · rw [hstop, hsum fun raw hraw => hraw, ← hlines]
  · intro before p after hplaced
    rw [hplaced] at hadjoin hencoded
    have haddress : p.address =
        programStart + (before.flatMap (Placed.bytes layout.labels)).length := by
      rw [hadjoin.address_eq, sum_size fun q hq => hencoded q (List.mem_append_left _ hq)]
    refine ⟨haddress, after.flatMap (Placed.bytes layout.labels), ?_⟩
    rw [haddress, Nat.add_sub_cancel_left, hprogram, hplaced, List.flatMap_append,
      List.flatMap_cons, List.drop_left]
  · intro name a
    constructor
    · intro hname
      obtain hnone | ⟨before, raw, after, hsplit, hmem, ha⟩ := mem_definedIn_of_lookup hlayout hname
      · cases hnone
      · refine ⟨before, raw, after, hsplit, hmem, ?_⟩
        rw [ha, hsum fun raw hraw => hsplit ▸ List.mem_append_left _ hraw]
    · rintro ⟨before, raw, after, hsplit, hmem, rfl⟩
      rw [hsplit] at hlayout
      rw [(lookup_of_mem_definedIn hlayout hmem).2,
        hsum fun raw hraw => hsplit ▸ List.mem_append_left _ hraw]

/-- Both passes agree on every source text that assembles. The program has at most 3584 bytes, and
every machine loads it: the bytes stand from the start address on, and nothing else changes. -/
theorem passes_agree {source : String} {assembled : Assembled}
    (h : assemble source = .ok assembled) :
    (∃ layout, layOut 1 programStart [] (lines source.toList) = .ok layout ∧
      Agree (lines source.toList) layout assembled) ∧
    assembled.program.length ≤ 3584 ∧
    ∀ m : Machine, ∃ ram, m.loadProgram assembled.program = .ok { m with ram } ∧
      (∀ (i : Nat) (hi : i < assembled.program.length),
        ram.read (UInt16.ofNat (programStart + i)) = assembled.program[i]) ∧
      ∀ i : Fin 4096, i.val < programStart ∨ programStart + assembled.program.length ≤ i.val →
        ram.cells.get i = m.ram.cells.get i := by
  have hfits := (assembles_of_ofCharacters h).fits
  refine ⟨agree_of_ofCharacters h, hfits, fun m => ?_⟩
  exact ⟨_, m.loadProgram_of_fits hfits, fun i hi => m.ram.read_overlay hfits hi,
    fun i hi => m.ram.get_overlay_of_outside _ hi⟩

/-- A jump over data to a label on a line of its own. In front of the jump stand two labels and an
address, of which only the labels count. -/
theorem passes_agree_forward :
    let source := "go: again: 200: JP end\n db 1, 2, 3 ; three\nend:\n dw $1234\n"
    ∃ assembled, assemble source = .ok assembled ∧
      assembled.program = [0x12, 0x05, 1, 2, 3, 0x12, 0x34] ∧
      (∃ layout, layOut 1 programStart [] (lines source.toList) = .ok layout ∧
        layout.stop = 0x207 ∧ Agree (lines source.toList) layout assembled) ∧
      ∃ ram, (Machine.ofSeed 0).loadProgram assembled.program =
        .ok { Machine.ofSeed 0 with ram } ∧ ram.read 0x205 = 0x12 := by
  intro source
  have hsource : (assemble source).toOption.map (·.program) =
      some [0x12, 0x05, 1, 2, 3, 0x12, 0x34] := by decide +kernel
  cases hassembled : assemble source with
  | error failure =>
    rw [hassembled] at hsource
    cases hsource
  | ok assembled =>
    rw [hassembled] at hsource
    have hprogram : assembled.program = [0x12, 0x05, 1, 2, 3, 0x12, 0x34] :=
      Option.some.inj hsource
    obtain ⟨⟨layout, hlayout, hagree⟩, -, hloads⟩ := passes_agree hassembled
    obtain ⟨ram, hload, hread, -⟩ := hloads (.ofSeed 0)
    have hstop : layout.stop = 0x207 := by rw [hagree.stop, hprogram]; rfl
    have hbyte := hread 5 (by rw [hprogram]; decide)
    simp only [hprogram] at hbyte
    exact ⟨assembled, rfl, hprogram, ⟨layout, hlayout, hstop, hagree⟩, ram, hload, hbyte⟩

end ChipEight.Assembly
