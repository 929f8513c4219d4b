import Mathlib.Data.List.Pairwise
import ChipEight.Instruction.Form

/-!
# Decoding

A row of the table stands for the words that show its pattern under its mask. No word belongs to two
rows, so their order decides nothing: the form of a word is the one row that it belongs to.
-/

namespace ChipEight

/-! ## Masks and patterns -/

/-- The words of a shape are those that show its pattern under its mask. -/
def Shape.Covers (s : Shape) (w : UInt16) : Prop := w &&& s.mask = s.pattern

instance (s : Shape) (w : UInt16) : Decidable (s.Covers w) :=
  inferInstanceAs (Decidable (_ = _))

theorem Digit.and_mask_eq_value_iff (d : Digit) (e : Fin 16) :
    e.val &&& d.mask = d.value ↔ d.fits e = true := by
  cases d with
  | fixed d =>
    revert d e
    decide
  | free => simp [mask, value, fits]

theorem Digit.mask_lt : ∀ d : Digit, d.mask < 16
  | .fixed _ | .free => by simp [mask]

theorem Digit.value_lt (d : Digit) : d.value < 16 := by
  cases d with
  | fixed d => exact d.isLt
  | free => decide

/-- Numbers meet digit by digit. -/
theorem and_digits (p q : Nat) {e f : Nat} (he : e < 16) (hf : f < 16) :
    (16 * p + e) &&& (16 * q + f) = 16 * (p &&& q) + (e &&& f) := by
  have hdiv := @Nat.and_div_two_pow (16 * p + e) (16 * q + f) 4
  have hmod := @Nat.and_mod_two_pow (16 * p + e) (16 * q + f) 4
  have hp : (16 * p + e) / 2 ^ 4 = p := by omega
  have hq : (16 * q + f) / 2 ^ 4 = q := by omega
  have he' : (16 * p + e) % 2 ^ 4 = e := by omega
  have hf' : (16 * q + f) % 2 ^ 4 = f := by omega
  rw [hp, hq] at hdiv
  rw [he', hf'] at hmod
  omega

/-- What a word shows under a mask, digit by digit. -/
theorem toNat_and_digits (w : UInt16) (p : Nat) {q r s : Nat} (hq : q < 16) (hr : r < 16)
    (hs : s < 16) :
    w.toNat &&& (4096 * p + 256 * q + 16 * r + s) =
      4096 * ((digitAt w 3).val &&& p) + 256 * ((digitAt w 2).val &&& q) +
        16 * ((digitAt w 1).val &&& r) + ((digitAt w 0).val &&& s) := by
  have hw : w.toNat = 16 * (16 * (16 * (digitAt w 3).val + (digitAt w 2).val) +
      (digitAt w 1).val) + (digitAt w 0).val := by
    have := toNat_eq_digits w
    omega
  have hmask : 4096 * p + 256 * q + 16 * r + s = 16 * (16 * (16 * p + q) + r) + s := by omega
  rw [hw, hmask, and_digits _ _ (digitAt w 0).isLt hs, and_digits _ _ (digitAt w 1).isLt hr,
    and_digits _ _ (digitAt w 2).isLt hq]
  omega

/-- A word belongs to a shape exactly if its digits fit. -/
theorem Shape.covers_iff_fits (s : Shape) (w : UInt16) :
    s.Covers w ↔ s.fits (digitAt w 3) (digitAt w 2) (digitAt w 1) (digitAt w 0) = true := by
  obtain ⟨first, second, third, last⟩ := s
  have hm₃ := first.mask_lt
  have hm₂ := second.mask_lt
  have hm₁ := third.mask_lt
  have hm₀ := last.mask_lt
  have hv₃ := first.value_lt
  have hv₂ := second.value_lt
  have hv₁ := third.value_lt
  have hv₀ := last.value_lt
  have hmask : (Shape.mask ⟨first, second, third, last⟩).toNat =
      4096 * first.mask + 256 * second.mask + 16 * third.mask + last.mask := by
    simp only [Shape.mask, UInt16.toNat_ofNat']
    omega
  have hpattern : (Shape.pattern ⟨first, second, third, last⟩).toNat =
      4096 * first.value + 256 * second.value + 16 * third.value + last.value := by
    simp only [Shape.pattern, UInt16.toNat_ofNat']
    omega
  have hb₃ := Nat.and_lt_two_pow (n := 4) (digitAt w 3).val hm₃
  have hb₂ := Nat.and_lt_two_pow (n := 4) (digitAt w 2).val hm₂
  have hb₁ := Nat.and_lt_two_pow (n := 4) (digitAt w 1).val hm₁
  have hb₀ := Nat.and_lt_two_pow (n := 4) (digitAt w 0).val hm₀
  rw [Covers, ← UInt16.toNat_inj, UInt16.toNat_and, hmask, hpattern,
    toNat_and_digits w _ hm₂ hm₁ hm₀]
  simp only [fits, Bool.and_eq_true, ← Digit.and_mask_eq_value_iff]
  omega

/-- A shape without operands is a single word. -/
theorem Shape.covers_iff_eq {s : Shape} {w : UInt16} (h : s.mask = -1) :
    s.Covers w ↔ w = s.pattern := by
  rw [Covers, h, UInt16.and_neg_one]

/-! ## Words by their digits -/

/-- The word of four digits, first digit first. -/
def ofDigits (a b c d : Fin 16) : UInt16 :=
  UInt16.ofNat (4096 * a.val + 256 * b.val + 16 * c.val + d.val)

theorem digits_ofDigits (a b c d : Fin 16) :
    digitAt (ofDigits a b c d) 3 = a ∧ digitAt (ofDigits a b c d) 2 = b ∧
      digitAt (ofDigits a b c d) 1 = c ∧ digitAt (ofDigits a b c d) 0 = d := by
  have hword : (ofDigits a b c d).toNat = 4096 * a.val + 256 * b.val + 16 * c.val + d.val := by
    rw [ofDigits, UInt16.toNat_ofNat']
    omega
  have hdigits := toNat_eq_digits (ofDigits a b c d)
  simp only [Fin.ext_iff]
  omega

theorem Shape.covers_ofDigits (s : Shape) (a b c d : Fin 16) :
    s.Covers (ofDigits a b c d) ↔ s.fits a b c d = true := by
  obtain ⟨ha, hb, hc, hd⟩ := digits_ofDigits a b c d
  rw [covers_iff_fits, ha, hb, hc, hd]

@[simp] theorem Operands.x_ofDigits (a b c d : Fin 16) : (ofWord (ofDigits a b c d)).x = b :=
  (digits_ofDigits a b c d).2.1

@[simp] theorem Operands.y_ofDigits (a b c d : Fin 16) : (ofWord (ofDigits a b c d)).y = c :=
  (digits_ofDigits a b c d).2.2.1

/-! ## Rows of the table -/

/-- Whether no digit fits both. -/
def Digit.clashes : Digit → Digit → Bool
  | .fixed d, .fixed e => d != e
  | .free, _ | _, .free => false

theorem Digit.not_fits_of_clashes {d e : Digit} {x : Fin 16} (h : d.clashes e = true)
    (hd : d.fits x = true) : e.fits x = false := by
  cases d with
  | free => cases h
  | fixed d =>
    cases e with
    | free => cases h
    | fixed e =>
      simp only [fits, beq_iff_eq] at hd
      subst hd
      simp only [clashes, bne_iff_ne] at h
      exact beq_false_of_ne (Ne.symm h)

/-- Whether two shapes give different digits at some place. -/
def Shape.clashes (s t : Shape) : Bool :=
  s.first.clashes t.first || s.second.clashes t.second || s.third.clashes t.third ||
    s.last.clashes t.last

theorem Shape.not_covers_of_clashes {s t : Shape} {w : UInt16} (h : s.clashes t = true)
    (hs : s.Covers w) : ¬t.Covers w := by
  rw [covers_iff_fits] at hs ⊢
  simp only [fits, Bool.and_eq_true] at hs ⊢
  obtain ⟨⟨⟨hfirst, hsecond⟩, hthird⟩, hlast⟩ := hs
  simp only [clashes, Bool.or_eq_true] at h
  rcases h with ((h | h) | h) | h
  · simp [Digit.not_fits_of_clashes h hfirst]
  · simp [Digit.not_fits_of_clashes h hsecond]
  · simp [Digit.not_fits_of_clashes h hthird]
  · simp [Digit.not_fits_of_clashes h hlast]

theorem table_pairwise_clashes :
    Form.table.Pairwise fun f g => f.shape.clashes g.shape = true := by decide +kernel

theorem mem_table_of_find? {w : UInt16} {f : Form} (h : Form.find? w = some f) :
    f ∈ Form.table := by
  unfold Form.find? Form.lookup at h
  exact List.mem_of_find?_eq_some h

theorem fits_of_find? {w : UInt16} {f : Form} (h : Form.find? w = some f) :
    f.shape.fits (digitAt w 3) (digitAt w 2) (digitAt w 1) (digitAt w 0) = true := by
  unfold Form.find? Form.lookup at h
  simpa using List.find?_some h

theorem covers_of_find? {w : UInt16} {f : Form} (h : Form.find? w = some f) : f.shape.Covers w :=
  (f.shape.covers_iff_fits w).mpr (fits_of_find? h)

theorem find?_eq_none_iff {w : UInt16} :
    Form.find? w = none ↔ ∀ f ∈ Form.table, ¬f.shape.Covers w := by
  unfold Form.find? Form.lookup
  simp only [List.find?_eq_none, Shape.covers_iff_fits]

/-- The row of an operation tells the shape of its words. -/
theorem covers_of_operation {w : UInt16} {f : Form} {operation : Operation} {s : Shape}
    (hform : Form.find? w = some f) (hoperation : f.operation = operation)
    (hshape : ∀ g ∈ Form.table, g.operation = operation → g.shape = s) : s.Covers w :=
  hshape f (mem_table_of_find? hform) hoperation ▸ covers_of_find? hform

/-- A word belongs to at most one row. -/
theorem eq_of_covers {w : UInt16} {f g : Form} (hf : f ∈ Form.table) (hg : g ∈ Form.table)
    (hfw : f.shape.Covers w) (hgw : g.shape.Covers w) : f = g := by
  by_contra hne
  have hclash : f.shape.clashes g.shape = true ∨ g.shape.clashes f.shape = true := by
    have hor : Form.table.Pairwise fun f g =>
        f.shape.clashes g.shape = true ∨ g.shape.clashes f.shape = true :=
      table_pairwise_clashes.imp fun h => .inl h
    have hsymm : Std.Symm fun f g : Form =>
        f.shape.clashes g.shape = true ∨ g.shape.clashes f.shape = true := ⟨fun _ _ => Or.symm⟩
    exact hor.forall hf hg hne
  rcases hclash with h | h
  · exact Shape.not_covers_of_clashes h hfw hgw
  · exact Shape.not_covers_of_clashes h hgw hfw

/-- The form of a word is the row that it belongs to. -/
theorem find?_eq_some_iff {w : UInt16} {f : Form} :
    Form.find? w = some f ↔ f ∈ Form.table ∧ f.shape.Covers w := by
  refine ⟨fun h => ⟨mem_table_of_find? h, covers_of_find? h⟩, fun ⟨hf, hfw⟩ => ?_⟩
  cases hfound : Form.find? w with
  | none => exact absurd hfw (find?_eq_none_iff.mp hfound f hf)
  | some g =>
    exact congrArg some
      (eq_of_covers (mem_table_of_find? hfound) hf (covers_of_find? hfound) hfw)

end ChipEight
