import Mathlib.Data.List.Forall2
import Mathlib.Data.Nat.Digits.Defs
import ChipEight.Text.Numeral

/-!
# The grammar of numerals

What a number may look like, said without a reader: a row of digits, one plus before them at most,
and for a hexadecimal number one mark before that. `number?` reads these texts and no others, and
the value of a text that it reads is that of its digits, as long as this value has 32 bits.

## The invariant

The reader goes through the digits from the left and keeps the value of those behind it. So the
induction is on the digits that are left, for any value kept (`continued_eq_some_iff`).
-/

namespace ChipEight.Text

/-! ## The grammar -/

/-- The digits with small letters, each at the place of its value. -/
def smallDigits : List Char :=
  ['0', '1', '2', '3', '4', '5', '6', '7', '8', '9', 'a', 'b', 'c', 'd', 'e', 'f']

/-- The digits with capital letters, each at the place of its value. -/
def capitalDigits : List Char :=
  ['0', '1', '2', '3', '4', '5', '6', '7', '8', '9', 'A', 'B', 'C', 'D', 'E', 'F']

/-- A character is the digit of a value in a base; letters have either case. -/
def IsDigit (base : Nat) (c : Char) (d : Nat) : Prop :=
  d < base ∧ (smallDigits[d]? = some c ∨ capitalDigits[d]? = some c)

/-- One or more digits of a number. The last of them counts ones. -/
structure IsRow (base : Nat) (s : List Char) (n : Nat) : Prop where
  ne_nil : s ≠ []
  digits : ∃ ds, List.Forall₂ (IsDigit base) s ds ∧ n = Nat.ofDigits base ds.reverse

/-- The digits of a number, with or without a plus before them. -/
inductive IsUnsigned (base : Nat) : List Char → Nat → Prop
  | bare {s : List Char} {n : Nat} (h : IsRow base s n) : IsUnsigned base s n
  | plus {s : List Char} {n : Nat} (h : IsRow base s n) : IsUnsigned base ('+' :: s) n

/-- A written number: decimal, or hexadecimal behind a mark. -/
inductive IsNumeral : List Char → Nat → Prop
  | decimal {s : List Char} {n : Nat} (h : IsUnsigned 10 s n) : IsNumeral s n
  | hexadecimal {mark s : List Char} {n : Nat}
      (hmark : mark ∈ [['0', 'x'], ['0', 'X'], ['$'], ['x'], ['#']]) (h : IsUnsigned 16 s n) :
      IsNumeral (mark ++ s) n

/-! ## Digits -/

theorem digitValue_eq_some_iff {c : Char} {d : Nat} :
    digitValue c = some d ↔ smallDigits[d]? = some c ∨ capitalDigits[d]? = some c := by
  constructor
  · intro h
    have hrange : c.toNat < 0x67 := by
      by_contra hlarge
      have hnone : digitValue c = none := by
        unfold digitValue
        simp only [Bool.and_eq_true, decide_eq_true_eq]
        rw [if_neg (by omega), if_neg (by omega), if_neg (by omega)]
      rw [hnone] at h
      cases h
    have hall : ∀ k ∈ List.range 0x67, ∀ e ∈ digitValue (Char.ofNat k),
        smallDigits[e]? = some (Char.ofNat k) ∨ capitalDigits[e]? = some (Char.ofNat k) := by
      decide
    have hc := hall c.toNat (List.mem_range.mpr hrange)
    rw [Char.ofNat_toNat] at hc
    exact hc d h
  · have hall : ∀ e ∈ List.range 16, (smallDigits[e]?.bind digitValue) = some e ∧
        (capitalDigits[e]?.bind digitValue) = some e := by decide
    rintro (h | h)
    · obtain ⟨hlt, -⟩ := List.getElem?_eq_some_iff.mp h
      have hd := (hall d (List.mem_range.mpr hlt)).1
      rwa [h] at hd
    · obtain ⟨hlt, -⟩ := List.getElem?_eq_some_iff.mp h
      have hd := (hall d (List.mem_range.mpr hlt)).2
      rwa [h] at hd

theorem digitIn_eq_some_iff {base : Nat} {c : Char} {d : Nat} :
    digitIn base c = some d ↔ IsDigit base c d := by
  rw [digitIn, Option.filter_eq_some_iff, digitValue_eq_some_iff, decide_eq_true_eq, IsDigit,
    and_comm]

/-! ## Rows of digits -/

/-- Digits that are read on from a value shift it to the left by their number. -/
theorem continued_eq_some_iff {base : Nat} {s : List Char} {acc n : Nat} :
    continued base acc s = some n ↔
      ∃ ds, List.Forall₂ (IsDigit base) s ds ∧
        n = Nat.ofDigits base ds.reverse + base ^ ds.length * acc := by
  induction s generalizing acc with
  | nil => simp [continued, eq_comm]
  | cons c rest ih =>
    simp only [List.forall₂_cons_left_iff, continued]
    cases hdigit : digitIn base c with
    | none =>
      refine iff_of_false (Option.some_ne_none _).symm ?_
      rintro ⟨_, ⟨d, ds, hd, -⟩, -⟩
      rw [digitIn_eq_some_iff.mpr hd] at hdigit
      cases hdigit
    | some d =>
      have hvalue (ds : List Nat) : Nat.ofDigits base (d :: ds).reverse +
          base ^ (d :: ds).length * acc =
            Nat.ofDigits base ds.reverse + base ^ ds.length * (acc * base + d) := by
        rw [Nat.ofDigits_reverse_cons, List.length_cons, pow_succ]
        ring
      dsimp only
      rw [ih]
      constructor
      · rintro ⟨ds, hds, rfl⟩
        exact ⟨d :: ds, ⟨d, ds, digitIn_eq_some_iff.mp hdigit, hds, rfl⟩, (hvalue ds).symm⟩
      · rintro ⟨_, ⟨e, ds, he, hds, rfl⟩, rfl⟩
        obtain rfl : d = e := Option.some.inj (hdigit.symm.trans (digitIn_eq_some_iff.mpr he))
        exact ⟨ds, hds, hvalue ds⟩

theorem digitsValue?_eq_some_iff {base : Nat} {s : List Char} {n : Nat} :
    digitsValue? base s = some n ↔ IsRow base s n := by
  cases s with
  | nil => exact iff_of_false nofun fun h => h.ne_nil rfl
  | cons c rest =>
    rw [digitsValue?, continued_eq_some_iff]
    · simp only [mul_zero, add_zero]
      exact ⟨fun h => ⟨List.cons_ne_nil c rest, h⟩, fun h => h.digits⟩
    · exact nofun

/-- A row starts with a digit. -/
theorem IsRow.exists_digit {base : Nat} {c : Char} {s : List Char} {n : Nat}
    (h : IsRow base (c :: s) n) : ∃ d, digitIn base c = some d := by
  obtain ⟨ds, hds, -⟩ := h.digits
  obtain ⟨d, _, hd, -⟩ := List.forall₂_cons_left_iff.mp hds
  exact ⟨d, digitIn_eq_some_iff.mpr hd⟩

theorem digitIn_plus (base : Nat) : digitIn base '+' = none := rfl

theorem unsigned?_eq_some_iff {base : Nat} {s : List Char} {n : Nat} :
    unsigned? base s = some n ↔ IsUnsigned base s n := by
  rw [unsigned?, digitsValue?_eq_some_iff]
  constructor
  · intro h
    unfold withoutPlus at h
    split at h
    · exact .plus h
    · exact .bare h
  · rintro (h | h)
    · -- The plus is no digit, so a row keeps its first character.
      have hsame : withoutPlus s = s := by
        unfold withoutPlus
        split
        · obtain ⟨d, hd⟩ := h.exists_digit
          rw [digitIn_plus] at hd
          cases hd
        · rfl
      rwa [hsame]
    · exact h

/-! ## Marks -/

theorem after?_eq_some_iff {mark s rest : List Char} :
    after? mark s = some rest ↔ s = mark ++ rest := by
  induction mark generalizing s with
  | nil => simp [after?]
  | cons m mark ih =>
    cases s with
    | nil => simp [after?]
    | cons c s =>
      rw [after?]
      by_cases hm : m = c
      · rw [if_pos hm, ih, List.cons_append, List.cons.injEq, and_iff_right hm.symm]
      · rw [if_neg hm, List.cons_append, List.cons.injEq]
        exact iff_of_false nofun fun h => hm h.1.symm

/-- No mark starts with another one, so what follows the mark is clear. -/
theorem afterHexMark?_eq_some_iff {s rest : List Char} :
    afterHexMark? s = some rest ↔ ∃ mark ∈ hexMarks, s = mark ++ rest := by
  constructor
  · intro h
    obtain ⟨mark, hmark, hrest⟩ := List.exists_of_findSome?_eq_some h
    exact ⟨mark, hmark, after?_eq_some_iff.mp hrest⟩
  · rintro ⟨mark, hmark, rfl⟩
    simp only [hexMarks, List.mem_cons, List.not_mem_nil, or_false] at hmark
    obtain rfl | rfl | rfl | rfl | rfl := hmark <;> rfl

/-- What a numeral is made of. -/
theorem IsUnsigned.eq_plus_or_digit {base : Nat} {s : List Char} {n : Nat}
    (h : IsUnsigned base s n) : ∀ c ∈ s, c = '+' ∨ ∃ d, digitIn base c = some d := by
  have hrow : ∀ {t : List Char}, IsRow base t n → ∀ c ∈ t, ∃ d, digitIn base c = some d := by
    intro t ht c hc
    obtain ⟨ds, hds, -⟩ := ht.digits
    obtain ⟨i, hi, rfl⟩ := List.mem_iff_getElem.mp hc
    have hi' : i < ds.length := hds.length_eq ▸ hi
    exact ⟨ds[i], digitIn_eq_some_iff.mpr (hds.get hi hi')⟩
  cases h with
  | bare h => exact fun c hc => .inr (hrow h c hc)
  | plus h =>
    intro c hc
    obtain rfl | hc := List.mem_cons.mp hc
    · exact .inl rfl
    · exact .inr (hrow h c hc)

/-- A decimal number has no mark: each mark ends in a character that no decimal number holds. -/
theorem IsUnsigned.afterHexMark?_eq_none {s : List Char} {n : Nat} (h : IsUnsigned 10 s n) :
    afterHexMark? s = none := by
  refine Option.eq_none_iff_forall_ne_some.mpr fun rest hrest => ?_
  obtain ⟨mark, hmark, rfl⟩ := afterHexMark?_eq_some_iff.mp hrest
  have hforeign : ∀ mark ∈ hexMarks,
      mark.any (fun c => c != '+' && (digitIn 10 c).isNone) = true := by decide
  obtain ⟨c, hc, hforeign⟩ := List.any_eq_true.mp (hforeign mark hmark)
  rw [Bool.and_eq_true, bne_iff_ne, Option.isNone_iff_eq_none] at hforeign
  obtain ⟨hplus, hnone⟩ := hforeign
  obtain heq | ⟨d, hd⟩ := h.eq_plus_or_digit c (List.mem_append_left _ hc)
  · exact hplus heq
  · rw [hnone] at hd
    cases hd

/-! ## Numbers -/

/-- The mark decides in which base a numeral is read. -/
theorem isNumeral_iff {s : List Char} {n : Nat} :
    IsNumeral s n ↔ (match afterHexMark? s with
      | some digits => unsigned? 16 digits
      | none => unsigned? 10 s) = some n := by
  cases hmark : afterHexMark? s with
  | some digits =>
    dsimp only
    rw [unsigned?_eq_some_iff]
    constructor
    · rintro (h | ⟨hmem, h⟩)
      · rw [h.afterHexMark?_eq_none] at hmark
        cases hmark
      · rw [afterHexMark?_eq_some_iff.mpr ⟨_, hmem, rfl⟩] at hmark
        cases hmark
        exact h
    · intro h
      obtain ⟨mark, hmem, rfl⟩ := afterHexMark?_eq_some_iff.mp hmark
      exact .hexadecimal hmem h
  | none =>
    dsimp only
    rw [unsigned?_eq_some_iff]
    constructor
    · rintro (h | ⟨hmem, h⟩)
      · exact h
      · rw [afterHexMark?_eq_some_iff.mpr ⟨_, hmem, rfl⟩] at hmark
        cases hmark
    · exact .decimal

/-- Between blanks, the numerals whose value has 32 bits are read, each as its value. -/
theorem number?_eq_some_iff {s : List Char} {n : Nat} :
    number? s = some n ↔ IsNumeral (trim s) n ∧ n < 2 ^ 32 := by
  rw [isNumeral_iff]
  exact Option.filter_eq_some_iff.trans (and_congr_right' decide_eq_true_iff)

/-- What is read is a numeral with a value of 32 bits; a text that is not read is no numeral, or has
a larger value. -/
theorem number?_reads_numerals (s : List Char) :
    (∀ n, number? s = some n ↔ IsNumeral (trim s) n ∧ n < 2 ^ 32) ∧
      (number? s = none ↔ ∀ n, IsNumeral (trim s) n → 2 ^ 32 ≤ n) := by
  refine ⟨fun n => number?_eq_some_iff, ?_⟩
  rw [Option.eq_none_iff_forall_ne_some]
  refine forall_congr' fun n => ?_
  rw [Ne, number?_eq_some_iff, not_and, Nat.not_lt]

example : number? [' ', '0', 'x', '+', '0', 'F', 'f', '\t'] = some 255 := by decide

example : number? ['+', '$', '1', '0'] = none := by decide

end ChipEight.Text
