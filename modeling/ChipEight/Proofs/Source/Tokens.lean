import ChipEight.Proofs.Instruction.Encoding
import ChipEight.Proofs.Source.Definitions
import ChipEight.Proofs.Source.LabelOperands
import ChipEight.Proofs.Text.LetterCase
import ChipEight.Proofs.Text.NumeralGrammar
import ChipEight.Proofs.Text.Spacing

/-!
# What is read is plain

Whatever a source text can stand for is a token: numbers, registers, names, literals and mnemonics
hold no blank and no character at which a line is cut. So a statement that encodes was read from
tokens (`isPlain_of_ofParts`), and the headings of a line that is accepted are tokens
(`isPlain_of_isHeading`).
-/

namespace ChipEight.Assembly

open Text

variable {s : List Char} {labels : Labels}

/-! ## Characters -/

theorem isPlain_toLower (c : Char) : isPlain c.toLower = isPlain c :=
  apply_toLower (by decide +kernel) c

theorem isPlain_of_digitValue {c : Char} {d : Nat} (h : digitValue c = some d) :
    isPlain c = true := by
  have hall : ∀ e ∈ smallDigits ++ capitalDigits, isPlain e = true :=
    List.all_eq_true.mp rfl
  obtain h | h := digitValue_eq_some_iff.mp h
  · exact hall c (List.mem_append_left _ (List.mem_of_getElem? h))
  · exact hall c (List.mem_append_right _ (List.mem_of_getElem? h))

theorem isPlain_of_isHexDigit {c : Char} (h : isHexDigit c = true) : isPlain c = true := by
  obtain ⟨d, hd⟩ := Option.isSome_iff_exists.mp h
  exact isPlain_of_digitValue hd

theorem isPlain_of_isNameChar {c : Char} (h : isNameChar c = true) : isPlain c = true := by
  have hcut : ∀ sep ∈ [',', ':', ';'], c ≠ sep := by
    rintro sep hsep rfl
    revert h
    simp only [List.mem_cons, List.not_mem_nil, or_false] at hsep
    rcases hsep with rfl | rfl | rfl <;> decide
  simp [isPlain, isBlank_of_isNameChar h, hcut]

/-! ## Texts -/

theorem isPlain_of_lower {t : List Char} (h : lower s = lower t) (ht : ∀ c ∈ t, isPlain c = true) :
    ∀ c ∈ s, isPlain c = true := by
  intro c hc
  have hlower : c.toLower ∈ lower t := h ▸ List.mem_map_of_mem hc
  obtain ⟨d, hd, hdc⟩ := List.mem_map.mp hlower
  rw [← isPlain_toLower, ← hdc, isPlain_toLower]
  exact ht d hd

theorem isPlain_of_isName (h : isName s = true) : ∀ c ∈ s, isPlain c = true := by
  cases s with
  | nil => cases h
  | cons c rest => exact fun d hd => isPlain_of_isNameChar ((isNameChar_of_isName h).2 d hd)

/-- Before a colon stand tokens. -/
theorem isPlain_of_isHeading (h : isHeading s = true) : ∀ c ∈ s, isPlain c = true := by
  obtain hmark | hname := Bool.or_eq_true_iff.mp h
  · cases s with
    | nil => cases hmark
    | cons c rest =>
      obtain ⟨hc, hrest⟩ := Bool.and_eq_true_iff.mp hmark
      have hname : isNameChar c = true := by simp [isNameChar, Char.isAlphanum, hc]
      refine List.forall_mem_cons.mpr ⟨isPlain_of_isNameChar hname, fun d hd => ?_⟩
      exact isPlain_of_isHexDigit (List.all_eq_true.mp hrest d hd)
  · exact isPlain_of_isName hname

theorem isPlain_of_isUnsigned {base n : Nat} (h : IsUnsigned base s n) :
    ∀ c ∈ s, isPlain c = true := by
  intro c hc
  obtain rfl | ⟨d, hd⟩ := h.eq_plus_or_digit c hc
  · decide
  · exact isPlain_of_digitValue (Option.filter_eq_some_iff.mp hd).1

theorem isPlain_of_isNumeral {n : Nat} (h : IsNumeral s n) : ∀ c ∈ s, isPlain c = true := by
  cases h with
  | decimal h => exact isPlain_of_isUnsigned h
  | @hexadecimal mark t _ hmark h =>
    have hmarks : ∀ mark ∈ [['0', 'x'], ['0', 'X'], ['$'], ['x'], ['#']],
        mark.all isPlain = true := by decide
    exact List.forall_mem_append.mpr
      ⟨List.all_eq_true.mp (hmarks mark hmark), isPlain_of_isUnsigned h⟩

theorem isPlain_of_numberUpTo? {max n : Nat} (h : numberUpTo? max s = some n) :
    ∀ c ∈ trim s, isPlain c = true :=
  isPlain_of_isNumeral (number?_eq_some_iff.mp (Option.filter_eq_some_iff.mp h).1).1

theorem isPlain_of_register? (h : (register? s).isSome) : ∀ c ∈ s, isPlain c = true := by
  match s, h with
  | [v, d], h =>
    rw [register?] at h
    split at h
    · next hv =>
      obtain ⟨value, hvalue⟩ := Option.isSome_iff_exists.mp h
      have hplain : isPlain v = true := by
        obtain hv | hv := Bool.or_eq_true_iff.mp hv
        · rw [beq_iff_eq.mp hv]
          decide
        · rw [beq_iff_eq.mp hv]
          decide
      exact List.forall_mem_cons.mpr
        ⟨hplain, List.forall_mem_singleton.mpr (isPlain_of_digitValue hvalue)⟩
    · cases h

/-- Trimming a token changes nothing. -/
theorem isPlain_trim (h : ∀ c ∈ s, isPlain c = true) : ∀ c ∈ trim s, isPlain c = true := by
  rwa [trim_eq_self fun c hc => isBlank_of_isPlain (h c hc)]

/-! ## Operands -/

theorem isPlain_of_address? (h : (address? labels s).isSome) :
    ∀ c ∈ trim s, isPlain c = true := by
  rw [address?] at h
  cases hnumber : numberUpTo? 0xFFF s with
  | some n => exact isPlain_of_numberUpTo? hnumber
  | none =>
    simp only [hnumber] at h
    split at h
    · next hname => exact isPlain_trim (isPlain_of_isName hname)
    · cases h

/-- The words of the instruction set are plain. -/
theorem isPlain_of_mem_table {f : Form} (hf : f ∈ Form.table) :
    (∀ c ∈ f.mnemonic.toList, isPlain c = true) ∧
      ∀ text, .literal text ∈ f.slots → ∀ c ∈ text.toList, isPlain c = true := by
  obtain ⟨hmnemonic, -, -, hslots⟩ := table_isToken f hf
  exact ⟨(isToken_iff.mp hmnemonic).2, fun text h => (isToken_iff.mp (hslots _ h)).2⟩

theorem isPlain_of_readSlot {f : Form} (hf : f ∈ Form.table) {slot : Slot} (hslot : slot ∈ f.slots)
    (h : (readSlot labels s slot).isSome) : ∀ c ∈ trim s, isPlain c = true := by
  cases slot with
  | registerX | registerY =>
    rw [readSlot, Option.isSome_map] at h
    exact isPlain_trim (isPlain_of_register? h)
  | byte | nibble | count =>
    rw [readSlot, Option.isSome_map] at h
    obtain ⟨n, hn⟩ := Option.isSome_iff_exists.mp h
    exact isPlain_of_numberUpTo? hn
  | address => exact isPlain_of_address? h
  | literal text =>
    rw [readSlot] at h
    split at h
    · next hsame =>
      exact isPlain_trim (isPlain_of_lower (sameLetters_iff.mp hsame).symm
        ((isPlain_of_mem_table hf).2 text hslot))
    · cases h

/-! ## Statements -/

/-- The statement with a given first word and operands. -/
def Statement.ofParts (head : List Char) (operands : List (List Char)) : Statement :=
  if (lower head).dropWhile (· == '.') = ['d', 'b'] then .bytes operands
  else if (lower head).dropWhile (· == '.') = ['d', 'w'] then .words operands
  else .instruction head operands

theorem Statement.ofText?_eq (h : s ≠ []) : Statement.ofText? s =
    some (.ofParts (headAndRest s).1 (operandsOf (headAndRest s).2)) := by
  have hempty : ¬s.isEmpty = true := fun he => h (List.isEmpty_iff.mp he)
  rw [Statement.ofText?, if_neg hempty]
  obtain ⟨head, rest⟩ := headAndRest s
  dsimp only
  rw [Statement.ofParts]
  split_ifs <;> rfl

theorem isPlain_of_valueBytes {max : Nat} {bytes : Nat → List UInt8} {flaw : String → SourceFlaw}
    {values : List (List Char)} {out : List UInt8}
    (h : valueBytes max bytes flaw values = .ok out) :
    ∀ value ∈ values, ∀ c ∈ trim value, isPlain c = true := by
  induction values generalizing out with
  | nil => exact fun _ hvalue => absurd hvalue List.not_mem_nil
  | cons value rest ih =>
    rw [valueBytes] at h
    cases hvalue : numberUpTo? max value with
    | none =>
      rw [hvalue] at h
      cases h
    | some n =>
      cases hrest : valueBytes max bytes flaw rest with
      | error e =>
        simp only [hvalue, hrest] at h
        cases h
      | ok more => exact List.forall_mem_cons.mpr ⟨isPlain_of_numberUpTo? hvalue, ih hrest⟩

/-- A directive is plain, leading dots included. -/
theorem isPlain_of_directive {head : List Char}
    (h : ∀ c ∈ (lower head).dropWhile (· == '.'), isPlain c = true) :
    ∀ c ∈ head, isPlain c = true := by
  refine isPlain_of_lower (lower_lower head).symm fun c hc => ?_
  rw [← List.takeWhile_append_dropWhile (p := (· == '.')) (l := lower head)] at hc
  obtain hdot | hc := List.mem_append.mp hc
  · have hequal := List.mem_takeWhile_imp hdot
    rw [beq_iff_eq.mp hequal]
    decide
  · exact h c hc

theorem isPlain_of_encode {mnemonic : List Char} {operands : List (List Char)} {w : UInt16}
    (h : encode labels mnemonic operands = .ok w) :
    (∀ c ∈ mnemonic, isPlain c = true) ∧
      ∀ operand ∈ operands, ∀ c ∈ trim operand, isPlain c = true := by
  obtain ⟨f, hf, hword⟩ := exists_encodeForm_of_encode h
  obtain ⟨htable, hmnemonic⟩ := List.mem_filter.mp hf
  obtain ⟨value, hvalue, -⟩ := Option.map_eq_some_iff.mp hword
  have hreads := readSlots_isSome (Option.isSome_iff_exists.mpr ⟨value, hvalue⟩)
  constructor
  · exact isPlain_of_lower (sameLetters_iff.mp hmnemonic).symm (isPlain_of_mem_table htable).1
  · intro operand hoperand
    obtain ⟨i, hi, rfl⟩ := List.mem_iff_getElem.mp hoperand
    have hi' : i < f.slots.length := hreads.length_eq ▸ hi
    exact isPlain_of_readSlot htable (List.getElem_mem hi') (hreads.get hi' hi)

/-- A statement that encodes was read from tokens. -/
theorem isPlain_of_ofParts {head : List Char} {operands : List (List Char)} {bytes : List UInt8}
    (h : (Statement.ofParts head operands).encode labels = .ok bytes) :
    (∀ c ∈ head, isPlain c = true) ∧
      ∀ operand ∈ operands, ∀ c ∈ trim operand, isPlain c = true := by
  rw [Statement.ofParts] at h
  split_ifs at h with hbytes hwords
  · have hdirective := isPlain_of_directive (by rw [hbytes]; exact List.all_eq_true.mp rfl)
    exact ⟨hdirective, isPlain_of_valueBytes h⟩
  · have hdirective := isPlain_of_directive (by rw [hwords]; exact List.all_eq_true.mp rfl)
    exact ⟨hdirective, isPlain_of_valueBytes h⟩
  · cases hword : encode labels head operands with
    | error flaw =>
      rw [Statement.encode, hword] at h
      cases h
    | ok w => exact isPlain_of_encode hword

end ChipEight.Assembly
