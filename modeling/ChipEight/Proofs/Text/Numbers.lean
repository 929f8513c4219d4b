import ChipEight.Text.Letters
import ChipEight.Text.Numeral
import ChipEight.Instruction.Written

/-!
# Numbers in source text

What a printed number is made of, and that every printed number is read back where a number is
read. The other direction matters as much: a name, such as that of a label or of a register, is
never taken for a number, so an operand has one reading.

* `numberUpTo?_dollar`, `numberUpTo?_decimal`: printed numbers are read.
* `number?_cons_eq_none`: a text with another first character is no number.
-/

namespace ChipEight.Text

/-! ## Digits -/

/-- Printed numbers consist of digits. -/
theorem exists_digitChar_of_mem_digits {base : Nat} (h2 : 2 ≤ base) {c : Char} (n : Nat) :
    c ∈ digits base n → ∃ d < base, c = digitChar d := by
  induction n using Nat.strongRecOn with
  | _ n ih =>
    intro hc
    rw [digits] at hc
    split at hc
    · next h =>
      rw [List.mem_singleton] at hc
      exact ⟨n, by omega, hc⟩
    · next h =>
      rcases List.mem_append.mp hc with hc | hc
      · exact ih (n / base) (Nat.div_lt_self (by omega) (by omega)) hc
      · rw [List.mem_singleton] at hc
        exact ⟨n % base, Nat.mod_lt _ (by omega), hc⟩

/-- A property of all digit characters holds of what a hexadecimal number consists of. -/
theorem forall_mem_hex {p : Char → Prop} (h : ∀ d ∈ List.range 16, p (digitChar d))
    (width n : Nat) : ∀ c ∈ hex width n, p c := by
  intro c hc
  rcases List.mem_append.mp hc with hc | hc
  · rw [(List.mem_replicate.mp hc).2]
    exact h 0 (by decide)
  · obtain ⟨d, hd, rfl⟩ := exists_digitChar_of_mem_digits (by decide) n hc
    exact h d (List.mem_range.mpr hd)

/-- A property of the ten decimal digits holds of what a decimal number consists of. -/
theorem forall_mem_decimal {p : Char → Prop} (h : ∀ d ∈ List.range 10, p (digitChar d))
    (n : Nat) : ∀ c ∈ decimal n, p c := by
  intro c hc
  obtain ⟨d, hd, rfl⟩ := exists_digitChar_of_mem_digits (by decide) n hc
  exact h d (List.mem_range.mpr hd)

theorem hex_ne_nil (width n : Nat) : hex width n ≠ [] := by
  intro h
  exact digits_ne_nil 16 n (List.append_eq_nil_iff.mp h).2

theorem digits_of_lt {base d : Nat} (h : d < base) : digits base d = [digitChar d] := by
  rw [digits, if_pos (Or.inl h)]

theorem hex_one {d : Nat} (h : d < 16) : hex 1 d = [digitChar d] := by
  rw [hex, digits_of_lt h]
  rfl

/-- A number with room for two digits ends in its last digit. -/
theorem hex_succ (width n : Nat) :
    hex (width + 2) n = hex (width + 1) (n / 16) ++ [digitChar (n % 16)] := by
  rw [hex, padZero, hex, padZero]
  by_cases h : n < 16
  · have hzero : digits 16 (n / 16) = ['0'] := by
      rw [Nat.div_eq_of_lt h]
      exact digits_of_lt (by decide)
    rw [digits_of_lt h, hzero, Nat.mod_eq_of_lt h]
    exact congrArg (· ++ [digitChar n]) List.replicate_succ'
  · have hdigits : digits 16 n = digits 16 (n / 16) ++ [digitChar (n % 16)] := by
      rw [digits, if_neg (by omega)]
    rw [hdigits, List.length_append, List.length_singleton, List.append_assoc,
      show width + 2 - ((digits 16 (n / 16)).length + 1) =
        width + 1 - (digits 16 (n / 16)).length by omega]

/-- Two bytes are printed one after the other. -/
theorem hex_bytes (high : Nat) {low : Nat} (hlow : low < 256) :
    hex 4 (256 * high + low) = hex 2 high ++ hex 2 low := by
  have hfirst : (256 * high + low) / 16 / 16 = high := by omega
  have hsecond : (256 * high + low) / 16 % 16 = low / 16 := by omega
  have hthird : (256 * high + low) % 16 = low % 16 := by omega
  rw [hex_succ 2, hex_succ 1, hex_succ 0 low, hex_one (by omega), hfirst, hsecond, hthird,
    List.append_assoc]

/-- Different numbers have different hexadecimal forms. -/
theorem hex_inj {width a b : Nat} (h : hex width a = hex width b) : a = b := by
  have ha := digitsValue?_hex width a
  rw [h, digitsValue?_hex width b] at ha
  exact (Option.some.inj ha).symm

/-- Different numbers have different decimal forms. -/
theorem decimal_inj {a b : Nat} (h : decimal a = decimal b) : a = b := by
  have ha := digitsValue?_decimal a
  rw [h, digitsValue?_decimal b] at ha
  exact (Option.some.inj ha).symm

/-! ## Reading printed numbers -/

/-- Digits without a plus in front are read as they stand. -/
theorem withoutPlus_eq_self {s : List Char} (h : ∀ c ∈ s.head?, c ≠ '+') : withoutPlus s = s := by
  cases s with
  | nil => rfl
  | cons c s =>
    have hc := h c rfl
    unfold withoutPlus
    split
    · next heq =>
      cases heq
      exact absurd rfl hc
    · rfl

theorem unsigned?_hex (width n : Nat) : unsigned? 16 (hex width n) = some n := by
  have hplus : ∀ c ∈ hex width n, c ≠ '+' := forall_mem_hex (by decide) width n
  rw [unsigned?, withoutPlus_eq_self (fun c hc => hplus c (List.mem_of_mem_head? hc)),
    digitsValue?_hex]

theorem unsigned?_decimal (n : Nat) : unsigned? 10 (decimal n) = some n := by
  have hplus : ∀ c ∈ decimal n, c ≠ '+' := forall_mem_decimal (by decide) n
  rw [unsigned?, withoutPlus_eq_self (fun c hc => hplus c (List.mem_of_mem_head? hc)),
    digitsValue?_decimal]

/-- A text of decimal digits has no hexadecimal mark. -/
theorem afterHexMark?_decimal (n : Nat) : afterHexMark? (decimal n) = none := by
  have hdigit : ∀ c ∈ decimal n, c ≠ '$' ∧ c ≠ 'x' ∧ c ≠ 'X' ∧ c ≠ '#' :=
    forall_mem_decimal (by decide) n
  cases hs : decimal n with
  | nil => rfl
  | cons c rest =>
    rw [hs] at hdigit
    obtain ⟨hdollar, hx, -, hhash⟩ := hdigit c List.mem_cons_self
    cases rest with
    | nil =>
      simp [afterHexMark?, hexMarks, after?, hdollar.symm, hx.symm, hhash.symm]
    | cons d rest =>
      -- The two marks of two characters need an `x` behind the zero.
      obtain ⟨-, hx', hX', -⟩ := hdigit d (by simp)
      simp [afterHexMark?, hexMarks, after?, hdollar.symm, hx.symm, hhash.symm, hx'.symm, hX'.symm]

theorem number?_dollar (width : Nat) {n : Nat} (h : n < valueLimit) :
    number? (dollar width n) = some n := by
  have hdigits : ∀ c ∈ hex width n, isBlank c = false := forall_mem_hex (by decide) width n
  have hblank : ∀ c ∈ dollar width n, isBlank c = false := by
    intro c hc
    rcases List.mem_cons.mp hc with rfl | hc
    · decide
    · exact hdigits c hc
  have hmark : afterHexMark? (dollar width n) = some (hex width n) := by
    cases hs : hex width n with
    | nil => exact absurd hs (hex_ne_nil width n)
    | cons c rest => simp [dollar, hs, afterHexMark?, hexMarks, after?]
  simp only [number?, trim_eq_self hblank, hmark, unsigned?_hex]
  simp [h]

theorem number?_decimal {n : Nat} (h : n < valueLimit) : number? (decimal n) = some n := by
  have hblank : ∀ c ∈ decimal n, isBlank c = false := forall_mem_decimal (by decide) n
  simp only [number?, trim_eq_self hblank, afterHexMark?_decimal, unsigned?_decimal]
  simp [h]

/-- A printed hexadecimal number is read where it is small enough. -/
theorem numberUpTo?_dollar (width : Nat) {max n : Nat} (h : n ≤ max) (hmax : max < valueLimit) :
    numberUpTo? max (dollar width n) = some n := by
  rw [numberUpTo?, number?_dollar width (Nat.lt_of_le_of_lt h hmax)]
  simp [h]

/-- A printed decimal number is read where it is small enough. -/
theorem numberUpTo?_decimal {max n : Nat} (h : n ≤ max) (hmax : max < valueLimit) :
    numberUpTo? max (decimal n) = some n := by
  rw [numberUpTo?, number?_decimal (Nat.lt_of_le_of_lt h hmax)]
  simp [h]

/-! ## Texts that are no numbers -/

/-- Whether a number can start with a character: a decimal digit, a plus or a mark. -/
def startsNumber (c : Char) : Bool :=
  (digitIn 10 c).isSome || c == '+' || c == '$' || c == 'x' || c == '#'

/-- Trimming keeps a first character other than a blank. -/
theorem exists_trim_cons {c : Char} (h : isBlank c = false) (s : List Char) :
    ∃ rest, trim (c :: s) = c :: rest := by
  have hleft : trimLeft (c :: s) = c :: s := by
    unfold trimLeft
    rw [List.dropWhile_cons_of_neg (by simp [h])]
  rw [trim, hleft, trimRight, List.reverse_cons, List.dropWhile_append]
  split
  · refine ⟨[], ?_⟩
    rw [List.dropWhile_cons_of_neg (by simp [h])]
    rfl
  · exact ⟨(s.reverse.dropWhile isBlank).reverse, by simp⟩

/-- A text that starts like no number is none. -/
theorem number?_cons_eq_none {c : Char} (hb : isBlank c = false) (hc : startsNumber c = false)
    (s : List Char) : number? (c :: s) = none := by
  obtain ⟨rest, hrest⟩ := exists_trim_cons hb s
  simp only [startsNumber, Bool.or_eq_false_iff, Option.isSome_eq_false_iff,
    Option.isNone_iff_eq_none, beq_eq_false_iff_ne] at hc
  obtain ⟨⟨⟨⟨hdigit, hplus⟩, hdollar⟩, hx⟩, hhash⟩ := hc
  have hzero : c ≠ '0' := by
    intro heq
    rw [heq] at hdigit
    exact absurd hdigit (by decide)
  -- The mark `0x` starts with a digit, so it is excluded by `hdigit` already.
  have hmark : afterHexMark? (c :: rest) = none := by
    simp [afterHexMark?, hexMarks, after?, hzero.symm, hdollar.symm, hx.symm, hhash.symm]
  have hvalue : unsigned? 10 (c :: rest) = none := by
    rw [unsigned?, withoutPlus_eq_self (by simpa using hplus)]
    simp only [digitsValue?, continued, hdigit]
  simp only [number?, hrest, hmark, hvalue]
  rfl

theorem numberUpTo?_eq_none {s : List Char} (h : number? s = none) (max : Nat) :
    numberUpTo? max s = none := by
  rw [numberUpTo?, h]
  rfl

end ChipEight.Text
