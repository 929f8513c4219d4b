import Mathlib.Algebra.GroupWithZero.Nat
import ChipEight.Proofs.Instruction.Apart
import ChipEight.Proofs.Instruction.Decoding
import ChipEight.Proofs.Text.Phrase

/-!
# Written instructions are read back

The text of a word is assembled into the word again. Every slot reads the operand that was written
for it, the operands together with the digits that the form gives make up the word, and no other
form takes the operands. The one thing that the text does not settle alone is an address that was
written as a label: there the labels have to know it.

* `encodeForm_written`: the form of a word encodes the operands of the word to the word.
* `ofText?_wordText`: the text of a word is a statement of two bytes that encodes to the word.
-/

namespace ChipEight

open Text Assembly

/-! ## Operands -/

/-- The number that stands in a slot. -/
def Slot.value (o : Operands) : Slot → Nat
  | .registerX => o.x.val
  | .registerY => o.y.val
  | .byte => o.byte.toNat
  | .nibble | .count => o.low.val
  | .address => o.address.toNat
  | .literal _ => 0

theorem register?_registerName (x : Fin 16) : register? (registerName x) = some x.val := by
  rw [registerName, hex_one x.isLt]
  simp [register?, digitValue_digitChar x.isLt]

/-- A slot reads what was written for it. For an address, that depends on the labels. -/
theorem readSlot_written {labels : Labels} {target : List Char} {o : Operands} (slot : Slot)
    (h : slot = .address → address? labels target = some (.ok o.address.toNat)) :
    readSlot labels (slot.written target o) slot = some (.ok (slot.value o)) := by
  have hlow : o.low.val ≤ 0xF := Nat.le_of_lt_succ o.low.isLt
  cases slot with
  | registerX => simp [readSlot, Slot.written, Slot.value, register?_registerName]
  | registerY => simp [readSlot, Slot.written, Slot.value, register?_registerName]
  | byte =>
    have hbyte : o.byte.toNat ≤ 0xFF := Nat.le_of_lt_succ o.byte.toNat_lt
    simp [readSlot, Slot.written, Slot.value, numberUpTo?_dollar 2 hbyte (by decide)]
  | nibble => simp [readSlot, Slot.written, Slot.value, numberUpTo?_dollar 1 hlow (by decide)]
  | count => simp [readSlot, Slot.written, Slot.value, numberUpTo?_decimal hlow (by decide)]
  | address => exact h rfl
  | literal text => simp [readSlot, Slot.written, Slot.value, sameLetters_refl]

/-- What the operands of slots are worth in a word together. -/
def slotsWorth (o : Operands) (slots : List Slot) : Nat :=
  (slots.map fun slot => slotWeight slot * slot.value o).sum

theorem readSlots_written {labels : Labels} {target : List Char} {o : Operands} :
    ∀ {slots : List Slot},
    (.address ∈ slots → address? labels target = some (.ok o.address.toNat)) →
    readSlots labels slots (slots.map (Slot.written target o)) = some (.ok (slotsWorth o slots))
  | [], _ => rfl
  | slot :: slots, h => by
    have hslot := readSlot_written slot (fun heq => h (heq ▸ List.mem_cons_self))
    have hrest := readSlots_written (fun hm => h (List.mem_cons_of_mem _ hm))
    rw [List.map_cons, readSlots, hslot, hrest]
    rfl

/-! ## The digits of a word -/

/-- What one unit of digit `i` of a word adds to the worth of a slot. -/
def Slot.unit : Nat → Slot → Nat
  | 2, .registerX | 2, .address => 256
  | 1, .registerY | 1, .byte | 1, .address => 16
  | 0, .byte | 0, .nibble | 0, .count | 0, .address => 1
  | _, _ => 0

/-- The worth of a slot comes from the digits of the word. -/
theorem slotWeight_mul_value (w : UInt16) (slot : Slot) :
    slotWeight slot * slot.value (.ofWord w) =
      slot.unit 2 * (digitAt w 2).val + slot.unit 1 * (digitAt w 1).val +
        slot.unit 0 * (digitAt w 0).val := by
  have hw := toNat_eq_digits w
  cases slot with
  | registerX => simp [slotWeight, Slot.value, Slot.unit, Operands.ofWord]
  | registerY => simp [slotWeight, Slot.value, Slot.unit, Operands.ofWord]
  | byte =>
    simp only [slotWeight, Slot.value, Slot.unit, Operands.ofWord, UInt8.toNat_ofNat']
    omega
  | nibble => simp [slotWeight, Slot.value, Slot.unit, Operands.ofWord]
  | count => simp [slotWeight, Slot.value, Slot.unit, Operands.ofWord]
  | address =>
    simp only [slotWeight, Slot.value, Slot.unit, Operands.toNat_address_ofWord]
    omega
  | literal text => simp [slotWeight, Slot.value, Slot.unit]

theorem slotsWorth_ofWord (w : UInt16) (slots : List Slot) :
    slotsWorth (.ofWord w) slots =
      (slots.map (Slot.unit 2)).sum * (digitAt w 2).val +
        (slots.map (Slot.unit 1)).sum * (digitAt w 1).val +
        (slots.map (Slot.unit 0)).sum * (digitAt w 0).val := by
  induction slots with
  | nil => simp [slotsWorth]
  | cons slot slots ih =>
    have hcons : slotsWorth (.ofWord w) (slot :: slots) =
        slotWeight slot * slot.value (.ofWord w) + slotsWorth (.ofWord w) slots := rfl
    rw [hcons, ih, slotWeight_mul_value]
    simp only [List.map_cons, List.sum_cons, Nat.add_mul]
    omega

/-- What one unit of a digit adds to a word, where the form leaves the digit to an operand. -/
def Digit.unit (u : Nat) : Digit → Nat
  | .fixed _ => 0
  | .free => u

/-- A digit of a word is the digit of the form, or that of an operand. -/
theorem Digit.value_add_unit {d : Digit} {e : Fin 16} (h : d.fits e = true) (u : Nat) :
    u * d.value + d.unit u * e.val = u * e.val := by
  cases d with
  | fixed d =>
    have heq : d = e := by simpa [Digit.fits] using h
    simp [Digit.value, Digit.unit, heq]
  | free => simp [Digit.value, Digit.unit]

theorem Digit.value_le (d : Digit) : d.value ≤ 15 := by
  cases d with
  | fixed d => exact Nat.le_of_lt_succ d.isLt
  | free => exact Nat.zero_le _

/-- The slots of each form of the table stand for its free digits, each digit once. -/
theorem table_slots_unit : ∀ f ∈ Form.table,
    f.shape.first.unit 4096 = 0 ∧
      (f.slots.map (Slot.unit 2)).sum = f.shape.second.unit 256 ∧
      (f.slots.map (Slot.unit 1)).sum = f.shape.third.unit 16 ∧
      (f.slots.map (Slot.unit 0)).sum = f.shape.last.unit 1 := by
  decide

/-- The digits of the form and the operands make up the word. -/
theorem pattern_add_slotsWorth {w : UInt16} {f : Form} (h : Form.find? w = some f) :
    f.shape.pattern.toNat + slotsWorth (.ofWord w) f.slots = w.toNat := by
  have hfits := fits_of_find? h
  simp only [Shape.fits, Bool.and_eq_true] at hfits
  obtain ⟨⟨⟨hfirst, hsecond⟩, hthird⟩, hlast⟩ := hfits
  obtain ⟨hu₃, hu₂, hu₁, hu₀⟩ := table_slots_unit f (mem_table_of_find? h)
  have h₃ := Digit.value_add_unit hfirst 4096
  have h₂ := Digit.value_add_unit hsecond 256
  have h₁ := Digit.value_add_unit hthird 16
  have h₀ := Digit.value_add_unit hlast 1
  have hw := toNat_eq_digits w
  -- The pattern has no carries: each of its digits is below sixteen.
  have hpattern : f.shape.pattern.toNat = 4096 * f.shape.first.value + 256 * f.shape.second.value +
      16 * f.shape.third.value + f.shape.last.value := by
    have v₃ := f.shape.first.value_le
    have v₂ := f.shape.second.value_le
    have v₁ := f.shape.third.value_le
    have v₀ := f.shape.last.value_le
    simp only [Shape.pattern, UInt16.toNat_ofNat']
    omega
  rw [hu₃] at h₃
  rw [hpattern, slotsWorth_ofWord, hu₂, hu₁, hu₀]
  omega

/-- The form of a word encodes the operands of the word to the word. -/
theorem encodeForm_written {labels : Labels} {target : List Char} {w : UInt16} {f : Form}
    (h : Form.find? w = some f)
    (ht : .address ∈ f.slots →
      address? labels target = some (.ok (Operands.ofWord w).address.toNat)) :
    encodeForm labels (f.slots.map (Slot.written target (.ofWord w))) f = some (.ok w) := by
  rw [encodeForm, readSlots_written ht]
  have hword := pattern_add_slotsWorth h
  show some (Except.ok (UInt16.ofNat (f.shape.pattern.toNat + slotsWorth (.ofWord w) f.slots))) = _
  rw [hword, UInt16.ofNat_toNat]

/-! ## Texts of instructions -/

theorem isToken_registerName (x : Fin 16) : isToken (registerName x) = true :=
  isToken_append (a := ['V']) (by decide) (isToken_hex 1 x.val)

theorem isToken_labelName (n : Nat) : isToken (labelName n) = true :=
  isToken_append (by decide) (isToken_decimal n)

theorem isToken_addressText (label? : UInt16 → Option Nat) (a : UInt16) :
    isToken (addressText label? a) = true := by
  unfold addressText
  split
  · exact isToken_labelName _
  · exact isToken_dollar 3 _

/-- Whether a slot's own text, if it has one, is a token. -/
def Slot.isWritable : Slot → Bool
  | .literal text => isToken text.toList
  | _ => true

theorem Slot.isToken_written {target : List Char} (ht : isToken target = true) (o : Operands)
    {slot : Slot} (h : slot.isWritable = true) : isToken (slot.written target o) = true := by
  cases slot with
  | registerX | registerY => exact isToken_registerName _
  | byte | nibble => exact isToken_dollar _ _
  | count => exact isToken_decimal _
  | address => exact ht
  | literal text => exact h

/-- Mnemonics and fixed operands are tokens, and no mnemonic is a directive. -/
theorem table_isToken : ∀ f ∈ Form.table,
    isToken f.mnemonic.toList = true ∧
      (lower f.mnemonic.toList).dropWhile (· == '.') ≠ ['d', 'b'] ∧
      (lower f.mnemonic.toList).dropWhile (· == '.') ≠ ['d', 'w'] ∧
      ∀ slot ∈ f.slots, slot.isWritable = true := by
  decide +kernel

/-- The operands of an instruction as they are written. -/
def Form.operandTexts (f : Form) (target : List Char) (o : Operands) : List (List Char) :=
  f.slots.map (Slot.written target o)

theorem isToken_of_mem_operandTexts {f : Form} (hf : f ∈ Form.table) {target : List Char}
    (ht : isToken target = true) (o : Operands) :
    ∀ part ∈ f.operandTexts target o, isToken part = true := by
  intro part hpart
  obtain ⟨slot, hslot, rfl⟩ := List.mem_map.mp hpart
  exact Slot.isToken_written ht o ((table_isToken f hf).2.2.2 slot hslot)

/-- The text of an instruction is its mnemonic, or its mnemonic and its operands. -/
theorem Form.written_eq (f : Form) (target : List Char) (o : Operands) :
    f.operandTexts target o = [] ∧ f.written target o = f.mnemonic.toList ∨
      f.operandTexts target o ≠ [] ∧ f.written target o =
        f.mnemonic.toList ++ ([' '] ++ [',', ' '].intercalate (f.operandTexts target o)) := by
  cases hs : f.slots with
  | nil => exact Or.inl ⟨by simp [operandTexts, hs], by simp [written, hs]⟩
  | cons slot slots =>
    refine Or.inr ⟨by simp [operandTexts, hs], ?_⟩
    simp only [written, operandTexts, hs]
    rfl

theorem isPhrase_written {f : Form} (hf : f ∈ Form.table) {target : List Char}
    (ht : isToken target = true) (o : Operands) : IsPhrase (f.written target o) := by
  have hm := IsPhrase.of_isToken (table_isToken f hf).1
  rcases f.written_eq target o with ⟨-, htext⟩ | ⟨hne, htext⟩
  · rw [htext]
    exact hm
  · rw [htext]
    exact hm.append (.intercalate hne (isToken_of_mem_operandTexts hf ht o)) (by simp)

/-- The text of an instruction is a statement with its mnemonic and its operands. -/
theorem ofText?_written {f : Form} (hf : f ∈ Form.table) {target : List Char}
    (ht : isToken target = true) (o : Operands) :
    Statement.ofText? (f.written target o) =
      some (.instruction f.mnemonic.toList (f.operandTexts target o)) := by
  obtain ⟨hm, hdb, hdw, -⟩ := table_isToken f hf
  have hblank : ∀ c ∈ f.mnemonic.toList, isBlank c = false :=
    fun c hc => isBlank_of_isPlain ((isToken_iff.mp hm).2 c hc)
  have hcut : ∃ rest, headAndRest (f.written target o) = (f.mnemonic.toList, rest) ∧
      operandsOf rest = f.operandTexts target o := by
    rcases f.written_eq target o with ⟨hnil, htext⟩ | ⟨hne, htext⟩
    · exact ⟨[], by rw [htext, headAndRest_of_not_blank hblank], by rw [hnil]; rfl⟩
    · refine ⟨[',', ' '].intercalate (f.operandTexts target o), ?_, ?_⟩
      · rw [htext, List.singleton_append, headAndRest_of_isToken hm]
      · exact operandsOf_intercalate hne (isToken_of_mem_operandTexts hf ht o)
  obtain ⟨rest, hhead, hoperands⟩ := hcut
  have hne : (f.written target o).isEmpty = false := by
    simpa using (isPhrase_written hf ht o).ne_nil
  simp only [Statement.ofText?, hne, hhead, hdb, hdw, hoperands]
  rfl

/-! ## Texts of words -/

/-- Labels know the address of a word under the label that stands for it in the text. -/
def Resolves (label? : UInt16 → Option Nat) (labels : Labels) (w : UInt16) : Prop :=
  ∀ a n, jumpTarget? w = some a → label? a = some n → labels.lookup (labelName n) = some a.toNat

theorem isName_labelName (n : Nat) : isName (labelName n) = true := by
  have hdigits : ∀ c ∈ decimal n, isNameChar c = true := forall_mem_decimal (by decide) n
  show ((isLetter 'l' || 'l' == '_') && ("abel".toList ++ decimal n).all isNameChar) = true
  rw [List.all_append, List.all_eq_true.mpr hdigits]
  rfl

/-- A label is no number. -/
theorem number?_labelName (n : Nat) : number? (labelName n) = none :=
  number?_cons_eq_none (c := 'l') (by decide) (by decide) _

/-- The text of an address reads as the address. -/
theorem address?_addressText {label? : UInt16 → Option Nat} {labels : Labels} {a : UInt16}
    (ha : a.toNat < 4096)
    (h : ∀ n, label? a = some n → labels.lookup (labelName n) = some a.toNat) :
    address? labels (addressText label? a) = some (.ok a.toNat) := by
  cases hl : label? a with
  | none =>
    have hmax : a.toNat ≤ 0xFFF := Nat.le_of_lt_succ ha
    simp [address?, addressText, hl, numberUpTo?_dollar 3 hmax (by decide)]
  | some n =>
    have hnone := numberUpTo?_eq_none (number?_labelName n) 0xFFF
    simp [address?, addressText, hl, hnone, isName_labelName, h n hl, Nat.mod_eq_of_lt ha]

theorem isPhrase_wordText (label? : UInt16 → Option Nat) (w : UInt16) :
    IsPhrase (wordText label? w) := by
  unfold wordText
  split
  · have hdirective : IsPhrase ".dw".toList := .of_isToken (by decide)
    show IsPhrase (".dw".toList ++ ([' '] ++ dollar 4 w.toNat))
    exact hdirective.append (.of_isToken (isToken_dollar 4 w.toNat)) (by simp)
  · next form hform =>
    exact isPhrase_written (mem_table_of_find? hform) (isToken_addressText _ _) _

/-- A directive with one value that is a token. -/
theorem ofText?_directive {value : List Char} (hv : isToken value = true) :
    Statement.ofText? (".dw ".toList ++ value) = some (.words [value]) ∧
      Statement.ofText? (".db ".toList ++ value) = some (.bytes [value]) := by
  have hoperands : operandsOf value = [value] := by
    have hvalue : ∀ part ∈ [value], isToken part = true := by simpa using hv
    have h := operandsOf_intercalate (by simp) hvalue
    rwa [List.intercalate_singleton] at h
  have hdw : headAndRest (".dw ".toList ++ value) = (".dw".toList, value) :=
    headAndRest_of_isToken (a := ".dw".toList) (by decide) value
  have hdb : headAndRest (".db ".toList ++ value) = (".db".toList, value) :=
    headAndRest_of_isToken (a := ".db".toList) (by decide) value
  constructor
  · simp only [Statement.ofText?, hdw, hoperands]
    rfl
  · simp only [Statement.ofText?, hdb, hoperands]
    rfl

/-- The text of a word is a statement of two bytes, and its bytes are those of the word. -/
theorem ofText?_wordText (label? : UInt16 → Option Nat) (w : UInt16) :
    ∃ statement, Statement.ofText? (wordText label? w) = some statement ∧ statement.size = 2 ∧
      ∀ labels, Resolves label? labels w → statement.encode labels = .ok (splitWord w) := by
  cases hform : Form.find? w with
  | none =>
    refine ⟨.words [dollar 4 w.toNat], ?_, rfl, ?_⟩
    · simp only [wordText, hform]
      exact (ofText?_directive (isToken_dollar 4 w.toNat)).1
    · intro labels _
      have hmax : w.toNat ≤ 0xFFFF := Nat.le_of_lt_succ w.toNat_lt
      simp [Statement.encode, valueBytes, numberUpTo?_dollar 4 hmax (by decide), Except.map]
  | some f =>
    have hf := mem_table_of_find? hform
    have ht := isToken_addressText label? (Operands.ofWord w).address
    have htext : Statement.ofText? (wordText label? w) = some (.instruction f.mnemonic.toList
        (f.operandTexts (addressText label? (Operands.ofWord w).address) (.ofWord w))) := by
      simp only [wordText, hform]
      exact ofText?_written hf ht _
    refine ⟨_, htext, rfl, ?_⟩
    intro labels hlabels
    have hword : encodeForm labels
        (f.operandTexts (addressText label? (Operands.ofWord w).address) (.ofWord w)) f =
          some (.ok w) := by
      refine encodeForm_written hform (fun haddress => address?_addressText ?_ ?_)
      · rw [Operands.toNat_address_ofWord]
        exact Nat.mod_lt _ (by decide)
      · intro n hn
        refine hlabels _ n ?_ hn
        simp [jumpTarget?, hform, Form.hasAddress, haddress]
    rw [Statement.encode, encode_of_encodeForm hf (sameLetters_refl _) hword]
    rfl

end ChipEight
