import Mathlib.Data.List.Forall2
import Mathlib.Data.List.Pairwise
import ChipEight.Proofs.Text.LetterCase
import ChipEight.Proofs.Text.Numbers
import ChipEight.Source.Assembly

/-!
# Instruction forms do not overlap

Several rows of the instruction table share a mnemonic. Two such rows never fit the same operands,
whatever the operands are: they differ in their number, or at one position one row wants what the
other never reads. So the order of the rows does not matter, and the word of an instruction is the
word of the one row that fits.

* `readSlot_of_apart`: slots that are apart never read the same text.
* `eq_of_encodeForm`: at most one form with a mnemonic fits.
* `encode_of_encodeForm`: the form that fits decides the word.
-/

namespace ChipEight

open Text Assembly

/-! ## Slots -/

/-- Whether no text can stand in both of two slots, for a reason that the first slot knows. -/
def Slot.isApart : Slot → Slot → Bool
  | .registerX, .byte | .registerY, .byte => true
  | .registerX, .literal text | .registerY, .literal text => (register? (lower text.toList)).isNone
  | .byte, .literal text =>
    match lower text.toList with
    | [] => false
    | c :: _ => !isBlank c && !startsNumber c
  | .literal text, .literal other => !sameLetters text.toList other.toList
  | _, _ => false

/-- Small letters have the same value as digits. -/
theorem digitValue_toLower (c : Char) : digitValue c.toLower = digitValue c :=
  apply_toLower (by decide +kernel) c

/-- A register is read in either case. -/
theorem register?_lower (s : List Char) : register? (lower s) = register? s := by
  match s with
  | [v, d] =>
    have hmark : (v.toLower == 'V' || v.toLower == 'v') = (v == 'V' || v == 'v') :=
      apply_toLower (f := fun c => c == 'V' || c == 'v') (by decide +kernel) v
    show (if (v.toLower == 'V' || v.toLower == 'v') = true then digitValue d.toLower else none) = _
    rw [hmark, digitValue_toLower]
    rfl
  | [] | [_] | _ :: _ :: _ :: _ => rfl

/-- The name of a register is no number. -/
theorem number?_eq_none_of_register? {s : List Char} (h : (register? s).isSome) :
    number? s = none := by
  match s, h with
  | [v, d], h =>
    simp only [register?] at h
    split at h
    · next hv =>
      rcases Bool.or_eq_true _ _ ▸ hv with hv | hv
      · rw [beq_iff_eq.mp hv]
        exact number?_cons_eq_none (by decide) (by decide) _
      · rw [beq_iff_eq.mp hv]
        exact number?_cons_eq_none (by decide) (by decide) _
    · simp at h

/-- The first character of a number, or a blank in front of it, shows in small letters too. -/
theorem number?_eq_none_of_lower {s : List Char} {c : Char} {rest : List Char}
    (h : lower s = c :: rest) (hb : isBlank c = false) (hc : startsNumber c = false) :
    number? s = none := by
  cases s with
  | nil => simp [lower] at h
  | cons d s =>
    simp only [lower, List.map_cons, List.cons.injEq] at h
    by_cases hd : d.toLower = d
    · rw [← h.1, hd] at hb hc
      exact number?_cons_eq_none hb hc s
    · -- Only capitals change, and no number starts with one.
      have hcap : d.isUpper = true := by
        by_contra hup
        refine hd ?_
        unfold Char.toLower
        rw [dif_neg]
        intro hrange
        exact hup (decide_eq_true hrange)
      have hall : ∀ n ∈ List.range 128, (Char.ofNat n).isUpper = true →
          isBlank (Char.ofNat n) = false ∧ startsNumber (Char.ofNat n) = false := by
        decide +kernel
      have hlt : d.toNat < 128 := by
        have hn : d.toNat ≤ 90 := UInt32.le_iff_toNat_le.mp (of_decide_eq_true hcap).2
        omega
      have hd' := hall d.toNat (List.mem_range.mpr hlt)
      rw [Char.ofNat_toNat] at hd'
      exact number?_cons_eq_none (hd' hcap).1 (hd' hcap).2 s

/-- Slots that are apart never read the same text. -/
theorem readSlot_of_isApart {labels : Labels} {s : List Char} {a b : Slot}
    (h : a.isApart b = true) (ha : (readSlot labels s a).isSome) : readSlot labels s b = none := by
  have hregister : ∀ {text : String}, (register? s).isSome →
      (register? (lower text.toList)).isNone = true → sameLetters text.toList s = false := by
    intro text hs htext
    by_contra heq
    have heq : lower text.toList = lower s := sameLetters_iff.mp (by simpa using heq)
    rw [← register?_lower, ← heq, Option.isSome_iff_ne_none] at hs
    exact hs (Option.isNone_iff_eq_none.mp htext)
  cases a with
  | registerX | registerY =>
    have hs : (register? s).isSome := by simpa [readSlot] using ha
    cases b with
    | byte => simp [readSlot, numberUpTo?_eq_none (number?_eq_none_of_register? hs)]
    | literal text => simp [readSlot, hregister hs h]
    | registerX | registerY | nibble | count | address => simp [Slot.isApart] at h
  | byte =>
    cases b with
    | literal text =>
      simp only [Slot.isApart] at h
      split at h
      · simp at h
      · next c rest hlow =>
        simp only [Bool.and_eq_true, Bool.not_eq_true'] at h
        have hne : sameLetters text.toList s = false := by
          by_contra heq
          have heq : lower text.toList = lower s := sameLetters_iff.mp (by simpa using heq)
          have hnone := number?_eq_none_of_lower (heq ▸ hlow) h.1 h.2
          simp [readSlot, numberUpTo?_eq_none hnone] at ha
        simp [readSlot, hne]
    | registerX | registerY | byte | nibble | count | address => simp [Slot.isApart] at h
  | literal text =>
    cases b with
    | literal other =>
      have hs : sameLetters text.toList s = true := by
        by_contra hs
        simp [readSlot, hs] at ha
      have hne : sameLetters other.toList s = false := by
        by_contra heq
        have heq : lower other.toList = lower s := sameLetters_iff.mp (by simpa using heq)
        have hsame : sameLetters text.toList other.toList = true :=
          sameLetters_iff.mpr ((sameLetters_iff.mp hs).trans heq.symm)
        simp [Slot.isApart, hsame] at h
      simp [readSlot, hne]
    | registerX | registerY | byte | nibble | count | address => simp [Slot.isApart] at h
  | nibble | count | address => simp [Slot.isApart] at h

/-! ## Forms -/

/-- Whether no operands fit two forms: their number differs, or two slots at one position are
apart. -/
def Form.isApart (f g : Form) : Bool :=
  f.slots.length != g.slots.length ||
    (f.slots.zip g.slots).any fun p => p.1.isApart p.2 || p.2.isApart p.1

/-- Operands that are read have the number of the slots, and each is read by its own. -/
theorem readSlots_isSome {labels : Labels} {slots : List Slot} {operands : List (List Char)}
    (h : (readSlots labels slots operands).isSome) :
    List.Forall₂ (fun slot s => (readSlot labels s slot).isSome) slots operands := by
  induction slots generalizing operands with
  | nil =>
    cases operands with
    | nil => exact .nil
    | cons s rest => simp [readSlots] at h
  | cons slot slots ih =>
    cases operands with
    | nil => simp [readSlots] at h
    | cons s rest =>
      simp only [readSlots] at h
      refine .cons ?_ (ih ?_)
      · cases hs : readSlot labels s slot with
        | none => simp [hs] at h
        | some r => rfl
      · cases hr : readSlots labels slots rest with
        | none =>
          rw [hr] at h
          split at h <;> simp_all
        | some r => rfl

/-- Operands that two lists of slots read are read by both slots at each position. -/
theorem exists_readSlot_of_mem_zip {labels : Labels} {operands : List (List Char)} :
    ∀ {slots others : List Slot} {p : Slot × Slot},
    List.Forall₂ (fun slot s => (readSlot labels s slot).isSome) slots operands →
    List.Forall₂ (fun slot s => (readSlot labels s slot).isSome) others operands →
    p ∈ slots.zip others →
    ∃ s, (readSlot labels s p.1).isSome ∧ (readSlot labels s p.2).isSome := by
  induction operands with
  | nil =>
    intro slots others p h₁ h₂ hp
    cases h₁
    simp at hp
  | cons s rest ih =>
    intro slots others p h₁ h₂ hp
    cases h₁ with
    | cons hs₁ hr₁ =>
      cases h₂ with
      | cons hs₂ hr₂ =>
        rcases List.mem_cons.mp hp with rfl | hp
        · exact ⟨s, hs₁, hs₂⟩
        · exact ih hr₁ hr₂ hp

/-- Forms that are apart never fit the same operands. -/
theorem encodeForm_of_isApart {labels : Labels} {operands : List (List Char)} {f g : Form}
    (h : f.isApart g = true) (hf : (encodeForm labels operands f).isSome) :
    encodeForm labels operands g = none := by
  by_contra hg
  have hg : (encodeForm labels operands g).isSome := Option.isSome_iff_ne_none.mpr hg
  simp only [encodeForm, Option.isSome_map] at hf hg
  have hf := readSlots_isSome hf
  have hg := readSlots_isSome hg
  simp only [Form.isApart, Bool.or_eq_true, bne_iff_ne, ne_eq, List.any_eq_true] at h
  -- Either the numbers of operands differ, or some operand would be read by slots that are apart.
  rcases h with h | ⟨p, hp, h⟩
  · exact h (hf.length_eq.trans hg.length_eq.symm)
  · obtain ⟨s, h₁, h₂⟩ := exists_readSlot_of_mem_zip hf hg hp
    rcases h with h | h
    · rw [readSlot_of_isApart h h₁] at h₂
      simp at h₂
    · rw [readSlot_of_isApart h h₂] at h₁
      simp at h₁

/-- Forms do not overlap: they have different mnemonics, or no operands fit both. -/
def Form.Apart (f g : Form) : Prop :=
  sameLetters f.mnemonic.toList g.mnemonic.toList = true → f.isApart g = true ∨ g.isApart f = true

instance (f g : Form) : Decidable (f.Apart g) :=
  inferInstanceAs (Decidable (_ = true → _ = true ∨ _ = true))

instance : Std.Symm Form.Apart where
  symm _ _ h hm := (h (sameLetters_iff.mpr (sameLetters_iff.mp hm).symm)).symm

/-- The rows of the table do not overlap. -/
theorem table_pairwise_apart : Form.table.Pairwise Form.Apart := by decide +kernel

/-- At most one form of the table has a given mnemonic and fits given operands. -/
theorem eq_of_encodeForm {labels : Labels} {operands : List (List Char)} {f g : Form}
    (hf : f ∈ Form.table) (hg : g ∈ Form.table)
    (hm : sameLetters f.mnemonic.toList g.mnemonic.toList = true)
    (hfo : (encodeForm labels operands f).isSome) (hgo : (encodeForm labels operands g).isSome) :
    f = g := by
  by_contra hne
  rcases table_pairwise_apart.forall hf hg hne hm with h | h
  · rw [encodeForm_of_isApart h hfo] at hgo
    simp at hgo
  · rw [encodeForm_of_isApart h hgo] at hfo
    simp at hfo

/-- Of the forms of a mnemonic, one at most fits given operands. -/
theorem eq_of_mem_formsOf {labels : Labels} {mnemonic : List Char} {operands : List (List Char)}
    {f g : Form} (hf : f ∈ formsOf mnemonic) (hg : g ∈ formsOf mnemonic)
    (hfo : (encodeForm labels operands f).isSome) (hgo : (encodeForm labels operands g).isSome) :
    f = g := by
  obtain ⟨hft, hfm⟩ := List.mem_filter.mp hf
  obtain ⟨hgt, hgm⟩ := List.mem_filter.mp hg
  refine eq_of_encodeForm hft hgt ?_ hfo hgo
  exact sameLetters_iff.mpr ((sameLetters_iff.mp hfm).trans (sameLetters_iff.mp hgm).symm)

/-- Where one element at most gives a result, that result is found wherever the element stands. -/
theorem findSome?_of_unique {α β : Type} {l : List α} {result? : α → Option β}
    (hunique : ∀ a ∈ l, ∀ b ∈ l, (result? a).isSome → (result? b).isSome → a = b) {a : α}
    {r : β} (ha : a ∈ l) (h : result? a = some r) : l.findSome? result? = some r := by
  cases hfound : l.findSome? result? with
  | none =>
    rw [List.findSome?_eq_none_iff.mp hfound a ha] at h
    cases h
  | some found =>
    obtain ⟨b, hb, hbr⟩ := List.exists_of_findSome?_eq_some hfound
    rw [← hunique a ha b hb (by rw [h]; rfl) (by rw [hbr]; rfl), h] at hbr
    exact hbr.symm

/-- The form that fits the operands decides the word. -/
theorem encode_of_encodeForm {labels : Labels} {mnemonic : List Char}
    {operands : List (List Char)} {f : Form} {r : Except SourceFlaw UInt16}
    (hf : f ∈ Form.table) (hm : sameLetters f.mnemonic.toList mnemonic = true)
    (h : encodeForm labels operands f = some r) : encode labels mnemonic operands = r := by
  have hfound : (formsOf mnemonic).findSome? (encodeForm labels operands) = some r :=
    findSome?_of_unique (fun _ hf _ hg => eq_of_mem_formsOf hf hg) (List.mem_filter.mpr ⟨hf, hm⟩) h
  simp only [encode, hfound]

end ChipEight
