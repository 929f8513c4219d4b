import ChipEight.Proofs.Instruction.Reading

/-!
# Encoding is unambiguous

An operand fills bits of the word that the pattern of its form leaves dark, and no two operands fill
the same bit. So a word that was encoded belongs to the row that encoded it, and each operand stands
in it as it was written. At most one row takes given operands, so the order of the rows decides
nothing (`encoding_unambiguous`).
-/

namespace ChipEight

open Text Assembly

/-! ## Bits -/

/-- Words without a common bit are added without a carry. -/
theorem add_eq_or {a b : UInt16} (h : a &&& b = 0) : a + b = a ||| b :=
  UInt16.toBitVec_inj.mp (BitVec.add_eq_or_of_and_eq_zero _ _ (congrArg UInt16.toBitVec h))

theorem or_and (a b mask : UInt16) : (a ||| b) &&& mask = (a &&& mask) ||| (b &&& mask) :=
  UInt16.toBitVec_inj.mp BitVec.and_or_distrib_right

theorem and_or (w a b : UInt16) : w &&& (a ||| b) = (w &&& a) ||| (w &&& b) :=
  UInt16.toBitVec_inj.mp BitVec.and_or_distrib_left

/-- What lies under one mask does not lie under another that is apart from it. -/
theorem and_eq_zero_of_under {a mask other : UInt16} (ha : a &&& mask = a)
    (hapart : mask &&& other = 0) : a &&& other = 0 := by
  rw [← ha, UInt16.and_assoc, hapart, UInt16.and_zero]

/-! ## The bits of a slot -/

namespace Slot

/-- The bits of a word that the operand of a slot fills. -/
def mask : Slot → UInt16
  | registerX => 0x0F00
  | registerY => 0x00F0
  | byte => 0x00FF
  | nibble | count => 0x000F
  | address => 0x0FFF
  | literal _ => 0

/-- A number as the operand of a slot, at its place in the word. -/
def bits (n : Nat) (slot : Slot) : UInt16 := UInt16.ofNat (slotWeight slot * n)

/-- The largest operand of a slot. -/
def limit : Slot → Nat
  | registerX | registerY | nibble | count => 15
  | byte => 255
  | address => 4095
  | literal _ => 0

theorem value_le_limit (w : UInt16) (slot : Slot) : slot.value (.ofWord w) ≤ slot.limit := by
  cases slot with
  | registerX | registerY | nibble | count => exact Nat.le_of_lt_succ (Fin.isLt _)
  | byte => exact Nat.le_of_lt_succ (UInt8.toNat_lt _)
  | address =>
    rw [value, Operands.toNat_address_ofWord]
    exact Nat.le_of_lt_succ (Nat.mod_lt _ (by decide))
  | literal text => exact Nat.le_refl 0

/-- A small enough operand is read off its bits. -/
theorem value_bits {n : Nat} {slot : Slot} (h : n ≤ slot.limit) :
    slot.value (.ofWord (slot.bits n)) = n := by
  cases slot <;> simp only [limit] at h
  case registerX | registerY | nibble | count =>
    simp only [value, bits, slotWeight, Operands.ofWord, digitAt, UInt16.toNat_ofNat']
    omega
  case byte =>
    simp only [value, bits, slotWeight, Operands.ofWord, UInt16.toNat_ofNat', UInt8.toNat_ofNat']
    omega
  case address =>
    simp only [value, bits, slotWeight, Operands.toNat_address_ofWord, UInt16.toNat_ofNat']
    omega
  case literal text => exact (Nat.le_zero.mp h).symm

/-- What a word shows under the mask of a slot is the operand. -/
theorem and_mask (w : UInt16) (slot : Slot) :
    w &&& slot.mask = slot.bits (slot.value (.ofWord w)) := by
  have hall : ∀ d : Fin 16, d.val &&& 15 = d.val :=
    fun d => Nat.and_two_pow_sub_one_of_lt_two_pow (n := 4) d.isLt
  have hunits : slot.unit 2 * (digitAt w 2).val + slot.unit 1 * (digitAt w 1).val +
      slot.unit 0 * (digitAt w 0).val < 2 ^ 16 := by
    cases slot <;> simp only [unit] <;> omega
  rw [← UInt16.toNat_inj, UInt16.toNat_and, bits, slotWeight_mul_value,
    UInt16.toNat_ofNat_of_lt' hunits]
  cases slot with
  | registerX =>
    simpa [mask, unit, hall] using toNat_and_digits w 0 (q := 15) (r := 0) (s := 0)
  | registerY =>
    simpa [mask, unit, hall] using toNat_and_digits w 0 (q := 0) (r := 15) (s := 0)
  | byte =>
    simpa [mask, unit, hall] using toNat_and_digits w 0 (q := 0) (r := 15) (s := 15)
  | nibble | count =>
    simpa [mask, unit, hall] using toNat_and_digits w 0 (q := 0) (r := 0) (s := 15)
  | address =>
    simpa [mask, unit, hall] using toNat_and_digits w 0 (q := 15) (r := 15) (s := 15)
  | literal text => simp [mask, unit]

/-- A small enough operand lies under the mask of its slot. -/
theorem bits_and_mask {n : Nat} {slot : Slot} (h : n ≤ slot.limit) :
    slot.bits n &&& slot.mask = slot.bits n := by
  rw [and_mask, value_bits h]

/-- The operand in a word is read off what the word shows under the mask. -/
theorem value_of_and_mask {w : UInt16} {n : Nat} {slot : Slot} (h : n ≤ slot.limit)
    (hw : w &&& slot.mask = slot.bits n) : slot.value (.ofWord w) = n := by
  rw [and_mask] at hw
  rw [← value_bits (slot.value_le_limit w), hw, value_bits h]

end Slot

/-! ## Operands -/

variable {labels : Labels} {slot : Slot} {slots : List Slot} {s : List Char}
  {operands : List (List Char)} {n : Nat}

theorem numberUpTo?_le {limit : Nat} (h : numberUpTo? limit s = some n) : n ≤ limit := by
  simpa using (Option.filter_eq_some_iff.mp h).2

/-- A text stands for what a word holds in a slot. A name stands for the address of its label, of
which a word has the low twelve bits. -/
def Slot.Says (labels : Labels) (o : Operands) : Slot → List Char → Prop
  | registerX, s => register? s = some o.x.val
  | registerY, s => register? s = some o.y.val
  | byte, s => numberUpTo? 0xFF s = some o.byte.toNat
  | nibble, s | count, s => numberUpTo? 0xF s = some o.low.val
  | address, s => numberUpTo? 0xFFF s = some o.address.toNat ∨
      numberUpTo? 0xFFF s = none ∧ isName s = true ∧
        ∃ a, labels.lookup s = some a ∧ o.address.toNat = a % 4096
  | literal text, s => sameLetters text.toList s = true

/-- An address is a number, or the name of a label. -/
theorem address?_eq_ok (h : address? labels s = some (.ok n)) :
    numberUpTo? 0xFFF s = some n ∨
      numberUpTo? 0xFFF s = none ∧ isName s = true ∧
        ∃ a, labels.lookup s = some a ∧ n = a % 4096 := by
  rw [address?] at h
  cases hnumber : numberUpTo? 0xFFF s with
  | some k =>
    rw [hnumber] at h
    cases h
    exact .inl rfl
  | none =>
    simp only [hnumber] at h
    split at h
    · next hname =>
      cases hlookup : labels.lookup s with
      | none =>
        rw [hlookup] at h
        cases h
      | some a =>
        rw [hlookup] at h
        cases h
        exact .inr ⟨rfl, hname, a, rfl, rfl⟩
    · cases h

theorem digitValue_lt {c : Char} {d : Nat} (h : digitValue c = some d) : d < 16 := by
  simp only [digitValue, Bool.and_eq_true, decide_eq_true_eq] at h
  split at h
  · cases h
    omega
  · split at h
    · cases h
      omega
    · split at h
      · cases h
        omega
      · cases h

theorem register?_lt (h : register? s = some n) : n < 16 := by
  match s, h with
  | [v, d], h =>
    rw [register?] at h
    split at h
    · exact digitValue_lt h
    · cases h

/-- A slot reads no more than its bits can hold. -/
theorem readSlot_le_limit (h : readSlot labels s slot = some (.ok n)) : n ≤ slot.limit := by
  cases slot with
  | registerX | registerY =>
    obtain ⟨k, hk, heq⟩ := Option.map_eq_some_iff.mp h
    cases heq
    exact Nat.le_of_lt_succ (register?_lt hk)
  | byte | nibble | count =>
    obtain ⟨k, hk, heq⟩ := Option.map_eq_some_iff.mp h
    cases heq
    exact numberUpTo?_le hk
  | address =>
    rcases address?_eq_ok h with hnumber | ⟨-, -, a, -, rfl⟩
    · exact numberUpTo?_le hnumber
    · exact Nat.le_of_lt_succ (Nat.mod_lt a (by decide))
  | literal text =>
    rw [readSlot] at h
    split at h
    · cases h
      exact Nat.le_refl 0
    · cases h

/-- A text stands for what its slot read. -/
theorem says_of_readSlot {o : Operands} (h : readSlot labels s slot = some (.ok n))
    (hvalue : slot.value o = n) : slot.Says labels o s := by
  subst hvalue
  cases slot with
  | registerX | registerY | byte | nibble | count =>
    obtain ⟨k, hk, heq⟩ := Option.map_eq_some_iff.mp h
    cases heq
    exact hk
  | address => exact address?_eq_ok h
  | literal text =>
    rw [readSlot] at h
    split at h
    · assumption
    · cases h

/-! ## Bits of a word -/

/-- The bits of no two slots overlap. -/
abbrev BitsApart (slots : List Slot) : Prop := slots.Pairwise fun a b => a.mask &&& b.mask = 0

theorem readSlots_cons {rest : List (List Char)}
    (h : readSlots labels (slot :: slots) (s :: rest) = some (.ok n)) :
    ∃ k m, readSlot labels s slot = some (.ok k) ∧ readSlots labels slots rest = some (.ok m) ∧
      n = slotWeight slot * k + m := by
  rw [readSlots] at h
  split at h
  · next k m hk hm =>
    cases h
    exact ⟨k, m, hk, hm, rfl⟩
  all_goals cases h

/-- Operands stay within the bits of their slots, and each of them can be read off there, whatever
the other bits of the word are. -/
theorem readSlots_bits (h : readSlots labels slots operands = some (.ok n))
    (hapart : BitsApart slots) :
    (∀ mask : UInt16, (∀ slot ∈ slots, slot.mask &&& mask = 0) → UInt16.ofNat n &&& mask = 0) ∧
      ∀ base : UInt16, (∀ slot ∈ slots, base &&& slot.mask = 0) →
        List.Forall₂ (fun slot s => ∃ k, readSlot labels s slot = some (.ok k) ∧
          (base ||| UInt16.ofNat n) &&& slot.mask = slot.bits k) slots operands := by
  induction slots generalizing operands n with
  | nil =>
    cases operands with
    | nil =>
      cases h
      exact ⟨fun mask _ => UInt16.zero_and, fun base _ => .nil⟩
    | cons s rest => cases h
  | cons slot slots ih =>
    cases operands with
    | nil => cases h
    | cons s rest =>
      obtain ⟨k, m, hk, hm, rfl⟩ := readSlots_cons h
      obtain ⟨hfirst, hlater⟩ := List.pairwise_cons.mp hapart
      obtain ⟨hwithin, hfields⟩ := ih hm hlater
      have hunder : slot.bits k &&& slot.mask = slot.bits k :=
        Slot.bits_and_mask (readSlot_le_limit hk)
      have hrest : UInt16.ofNat m &&& slot.mask = 0 :=
        hwithin slot.mask fun other hother => by rw [UInt16.and_comm, hfirst other hother]
      -- The first operand shares no bit with the others, so adding it is a bitwise or.
      have hsum : UInt16.ofNat (slotWeight slot * k + m) = slot.bits k ||| UInt16.ofNat m := by
        have hbits : slot.bits k &&& UInt16.ofNat m = 0 := by
          rw [← hunder, UInt16.and_assoc, UInt16.and_comm slot.mask, hrest, UInt16.and_zero]
        rw [UInt16.ofNat_add]
        exact add_eq_or hbits
      rw [hsum]
      constructor
      · intro mask hmask
        rw [or_and, hwithin mask fun other hother => hmask other (List.mem_cons_of_mem _ hother),
          and_eq_zero_of_under hunder (hmask slot List.mem_cons_self), UInt16.or_self]
      · intro base hbase
        refine .cons ⟨k, hk, ?_⟩ ?_
        · rw [or_and, or_and, hbase slot List.mem_cons_self, hunder, hrest, UInt16.or_zero,
            UInt16.zero_or]
        · rw [← UInt16.or_assoc]
          refine hfields _ fun other hother => ?_
          rw [or_and, hbase other (List.mem_cons_of_mem _ hother),
            and_eq_zero_of_under hunder (hfirst other hother), UInt16.or_self]

/-- The slots of each row of the table fill the bits that its shape leaves free, each bit once. -/
theorem table_bits : ∀ f ∈ Form.table,
    BitsApart f.slots ∧ (∀ slot ∈ f.slots, slot.mask &&& f.shape.mask = 0) ∧
      f.shape.pattern &&& f.shape.mask = f.shape.pattern ∧
      f.slots.foldl (fun bits slot => bits ||| slot.mask) f.shape.mask = -1 := by
  decide +kernel

/-- A row that encodes operands is the row of the word, and every operand stands in the word as it
was written. -/
theorem find?_of_encodeForm {f : Form} (hf : f ∈ Form.table) {w : UInt16}
    (h : encodeForm labels operands f = some (.ok w)) :
    Form.find? w = some f ∧ List.Forall₂ (Slot.Says labels (.ofWord w)) f.slots operands := by
  obtain ⟨hapart, hfree, hpattern, -⟩ := table_bits f hf
  obtain ⟨value, hvalue, hmap⟩ := Option.map_eq_some_iff.mp h
  cases value with
  | error flaw => cases hmap
  | ok n =>
    cases hmap
    obtain ⟨hwithin, hfields⟩ := readSlots_bits hvalue hapart
    have hdark : ∀ slot ∈ f.slots, f.shape.pattern &&& slot.mask = 0 := fun slot hslot =>
      and_eq_zero_of_under hpattern (UInt16.and_comm _ _ ▸ hfree slot hslot)
    have hoperands : UInt16.ofNat n &&& f.shape.mask = 0 := hwithin f.shape.mask hfree
    have hword : UInt16.ofNat (f.shape.pattern.toNat + n) =
        f.shape.pattern ||| UInt16.ofNat n := by
      rw [UInt16.ofNat_add, UInt16.ofNat_toNat]
      refine add_eq_or ?_
      rw [← hpattern, UInt16.and_assoc, UInt16.and_comm f.shape.mask, hoperands, UInt16.and_zero]
    simp only [hword]
    constructor
    · refine find?_eq_some_iff.mpr ⟨hf, ?_⟩
      rw [Shape.Covers, or_and, hpattern, hoperands, UInt16.or_zero]
    · refine (hfields _ hdark).imp fun slot s => ?_
      rintro ⟨k, hk, hbits⟩
      exact says_of_readSlot hk (Slot.value_of_and_mask (readSlot_le_limit hk) hbits)

/-- A word is the pattern of its row with the bits of its operands. -/
theorem foldl_bits {w : UInt16} {f : Form} (h : Form.find? w = some f) :
    f.slots.foldl (fun bits slot => bits ||| slot.bits (slot.value (.ofWord w)))
      f.shape.pattern = w := by
  obtain ⟨-, -, -, hcover⟩ := table_bits f (mem_table_of_find? h)
  have hmasks : ∀ (slots : List Slot) (base : UInt16),
      slots.foldl (fun bits slot => bits ||| slot.bits (slot.value (.ofWord w))) (w &&& base) =
        w &&& slots.foldl (fun bits slot => bits ||| slot.mask) base := by
    intro slots
    induction slots with
    | nil => exact fun base => rfl
    | cons slot slots ih =>
      intro base
      rw [List.foldl_cons, List.foldl_cons, ← Slot.and_mask, ← and_or, ih]
  have hcovers : w &&& f.shape.mask = f.shape.pattern := covers_of_find? h
  rw [← hcovers, hmasks, hcover, UInt16.and_neg_one]

/-- A word comes from a row of the mnemonic. -/
theorem exists_encodeForm_of_encode {mnemonic : List Char} {w : UInt16}
    (h : encode labels mnemonic operands = .ok w) :
    ∃ f ∈ formsOf mnemonic, encodeForm labels operands f = some (.ok w) := by
  rw [encode] at h
  cases hfound : (formsOf mnemonic).findSome? (encodeForm labels operands) with
  | some result =>
    obtain ⟨f, hf, hresult⟩ := List.exists_of_findSome?_eq_some hfound
    simp only [hfound] at h
    exact ⟨f, hf, h ▸ hresult⟩
  | none =>
    simp only [hfound] at h
    split at h <;> cases h

/-! ## Rows in any order -/

/-- Encoding with the rows of some table, the first of them first. -/
def encodeBy (table : List Form) (labels : Labels) (mnemonic : List Char)
    (operands : List (List Char)) : Except SourceFlaw UInt16 :=
  let forms := table.filter fun f => sameLetters f.mnemonic.toList mnemonic
  match forms.findSome? (encodeForm labels operands) with
  | some result => result
  | none =>
    let name := String.ofList mnemonic
    if forms.isEmpty then .error (.unknownInstruction name)
    else .error (.badOperands name (String.ofList (", ".toList.intercalate operands)))

/-- The rows of a mnemonic whose slots take given operands. A name goes where an address does,
whether it is defined or not. -/
def formsTaking (labels : Labels) (mnemonic : List Char) (operands : List (List Char)) :
    List Form :=
  (formsOf mnemonic).filter fun f => (encodeForm labels operands f).isSome

theorem nodup_table : Form.table.Nodup := by decide +kernel

theorem length_formsTaking_le (labels : Labels) (mnemonic : List Char)
    (operands : List (List Char)) : (formsTaking labels mnemonic operands).length ≤ 1 := by
  have hnodup : (formsTaking labels mnemonic operands).Nodup := (nodup_table.filter _).filter _
  have hsame : ∀ f ∈ formsTaking labels mnemonic operands,
      ∀ g ∈ formsTaking labels mnemonic operands, f = g := by
    intro f hf g hg
    obtain ⟨hf, hfo⟩ := List.mem_filter.mp hf
    obtain ⟨hg, hgo⟩ := List.mem_filter.mp hg
    exact eq_of_mem_formsOf hf hg hfo hgo
  match formsTaking labels mnemonic operands, hnodup, hsame with
  | [], _, _ => exact Nat.zero_le 1
  | [_], _, _ => exact Nat.le_refl 1
  | f :: g :: rest, hnodup, hsame =>
    have hne : f ≠ g := fun heq => (List.nodup_cons.mp hnodup).1 (heq ▸ List.mem_cons_self)
    exact absurd (hsame f List.mem_cons_self g (List.mem_cons_of_mem f List.mem_cons_self)) hne

theorem encodeBy_table (labels : Labels) (mnemonic : List Char) (operands : List (List Char)) :
    encodeBy Form.table labels mnemonic operands = encode labels mnemonic operands := rfl

/-- Any other order of the rows gives the same words and the same errors. -/
theorem encodeBy_of_perm {table : List Form} (h : table.Perm Form.table) (labels : Labels)
    (mnemonic : List Char) (operands : List (List Char)) :
    encodeBy table labels mnemonic operands = encode labels mnemonic operands := by
  have hforms : (table.filter fun f => sameLetters f.mnemonic.toList mnemonic).Perm
      (Form.table.filter fun f => sameLetters f.mnemonic.toList mnemonic) := h.filter _
  have hfound : (table.filter fun f => sameLetters f.mnemonic.toList mnemonic).findSome?
      (encodeForm labels operands) =
        (Form.table.filter fun f => sameLetters f.mnemonic.toList mnemonic).findSome?
          (encodeForm labels operands) := by
    cases hfound : (Form.table.filter fun f => sameLetters f.mnemonic.toList mnemonic).findSome?
        (encodeForm labels operands) with
    | none =>
      rw [List.findSome?_eq_none_iff] at hfound ⊢
      exact fun f hf => hfound f (hforms.mem_iff.mp hf)
    | some result =>
      obtain ⟨f, hf, hresult⟩ := List.exists_of_findSome?_eq_some hfound
      refine findSome?_of_unique (fun f hf g hg => ?_) (hforms.mem_iff.mpr hf) hresult
      exact eq_of_mem_formsOf (hforms.mem_iff.mp hf) (hforms.mem_iff.mp hg)
  rw [← encodeBy_table]
  simp only [encodeBy, hfound, hforms.isEmpty_eq]

/-! ## Both directions -/

/-- Encoding is unambiguous, whatever the operands and the labels are. At most one row of a mnemonic
takes the operands, so rows in any other order encode alike. And the word that comes out belongs to
that very row, is its pattern with the bits of the operands, and shows each operand as written. -/
theorem encoding_unambiguous (labels : Labels) (mnemonic : List Char)
    (operands : List (List Char)) :
    (formsTaking labels mnemonic operands).length ≤ 1 ∧
    (∀ table : List Form, table.Perm Form.table →
      encodeBy table labels mnemonic operands = encode labels mnemonic operands) ∧
    ∀ w, encode labels mnemonic operands = .ok w →
      ∃ f, formsTaking labels mnemonic operands = [f] ∧ Form.find? w = some f ∧
        f.slots.foldl (fun bits slot => bits ||| slot.bits (slot.value (.ofWord w)))
          f.shape.pattern = w ∧
        List.Forall₂ (Slot.Says labels (.ofWord w)) f.slots operands := by
  have hlength := length_formsTaking_le labels mnemonic operands
  refine ⟨hlength, fun table h => encodeBy_of_perm h labels mnemonic operands, fun w hw => ?_⟩
  obtain ⟨f, hf, hword⟩ := exists_encodeForm_of_encode hw
  have htaking : f ∈ formsTaking labels mnemonic operands :=
    List.mem_filter.mpr ⟨hf, by rw [hword]; rfl⟩
  have hone : (formsTaking labels mnemonic operands).length = 1 :=
    Nat.le_antisymm hlength (List.length_pos_of_mem htaking)
  obtain ⟨g, hg⟩ := List.length_eq_one_iff.mp hone
  obtain rfl := List.mem_singleton.mp (hg ▸ htaking)
  obtain ⟨hfind, hsays⟩ := find?_of_encodeForm (List.mem_filter.mp hf).1 hword
  exact ⟨f, hg, hfind, foldl_bits hfind, hsays⟩

/-- A label with an address of more than twelve bits, and the rows from last to first: `Ld i, Far`
is the word of the row that loads an address. -/
theorem encoding_unambiguous_far :
    let labels : Labels := [(['F', 'a', 'r'], 0x1ABC)]
    let operands := [['i'], ['F', 'a', 'r']]
    encodeBy Form.table.reverse labels ['L', 'd'] operands = .ok 0xAABC ∧
      ∃ f, formsTaking labels ['L', 'd'] operands = [f] ∧ f.operation = .setIndex ∧
        List.Forall₂ (Slot.Says labels (.ofWord 0xAABC)) f.slots operands := by
  intro labels operands
  have hword : encode labels ['L', 'd'] operands = .ok 0xAABC := by decide +kernel
  obtain ⟨-, horder, hdecode⟩ := encoding_unambiguous labels ['L', 'd'] operands
  obtain ⟨f, htaking, hfind, -, hsays⟩ := hdecode 0xAABC hword
  have hoperation : (Form.find? 0xAABC).map (·.operation) = some .setIndex := rfl
  rw [hfind] at hoperation
  refine ⟨?_, f, htaking, Option.some.inj hoperation, hsays⟩
  rw [horder _ (List.reverse_perm _), hword]

end ChipEight
