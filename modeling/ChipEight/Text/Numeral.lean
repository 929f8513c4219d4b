import ChipEight.Text.Blank

/-!
# Numerals

Numbers are written in decimal, or in hexadecimal after one of five marks. Reading takes either
case of a hexadecimal digit, leading zeros without limit and one leading `+`; printing writes
lower case digits and pads with zeros to a least width.

## Termination

Printing divides the number by the base until one digit is left.
-/

namespace ChipEight.Text

/-! ## Digits -/

/-- The character of a digit below sixteen. -/
def digitChar (d : Nat) : Char :=
  if d < 10 then Char.ofNat (0x30 + d) else Char.ofNat (0x61 + (d - 10))

/-- The value of a hexadecimal digit of either case. -/
def digitValue (c : Char) : Option Nat :=
  let n := c.toNat
  if 0x30 ≤ n && n ≤ 0x39 then some (n - 0x30)
  else if 0x61 ≤ n && n ≤ 0x66 then some (n - 0x61 + 10)
  else if 0x41 ≤ n && n ≤ 0x46 then some (n - 0x41 + 10)
  else none

/-- The value of a digit in a base of at most sixteen. -/
def digitIn (base : Nat) (c : Char) : Option Nat := (digitValue c).filter (· < base)

/-- Whether a character is a hexadecimal digit. -/
def isHexDigit (c : Char) : Bool := (digitValue c).isSome

/-- Reading the character of a digit gives the digit. -/
theorem digitValue_digitChar {d : Nat} (h : d < 16) : digitValue (digitChar d) = some d := by
  have hall : ∀ e ∈ List.range 16, digitValue (digitChar e) = some e := by decide
  exact hall d (List.mem_range.mpr h)

theorem digitIn_digitChar {base d : Nat} (hb : base ≤ 16) (h : d < base) :
    digitIn base (digitChar d) = some d := by
  simp [digitIn, digitValue_digitChar (Nat.lt_of_lt_of_le h hb), h]

/-! ## Reading -/

/-- The number that a row of digits continues to, after the digits worth `acc`. -/
def continued (base : Nat) (acc : Nat) : List Char → Option Nat
  | [] => some acc
  | c :: rest =>
    match digitIn base c with
    | none => none
    | some d => continued base (acc * base + d) rest

/-- The value of a row of digits; there must be at least one. -/
def digitsValue? (base : Nat) : List Char → Option Nat
  | [] => none
  | s => continued base 0 s

/-- A text without one leading `+`. -/
def withoutPlus : List Char → List Char
  | '+' :: rest => rest
  | s => s

/-- The value of an unsigned numeral: an optional `+`, then digits. -/
def unsigned? (base : Nat) (s : List Char) : Option Nat := digitsValue? base (withoutPlus s)

/-- What follows `mark` in a text that starts with it. -/
def after? : List Char → List Char → Option (List Char)
  | [], s => some s
  | _ :: _, [] => none
  | m :: mark, c :: s => if m = c then after? mark s else none

/-- The marks that announce a hexadecimal numeral, in the order in which they are tried. -/
def hexMarks : List (List Char) := [['0', 'x'], ['0', 'X'], ['$'], ['x'], ['#']]

/-- What follows the hexadecimal mark at the start of a text. -/
def afterHexMark? (s : List Char) : Option (List Char) := hexMarks.findSome? (after? · s)

/-- Values are limited to 32 bits. -/
def valueLimit : Nat := 0x100000000

/-- Reads a number between optional blanks: hexadecimal after a mark, decimal without one. -/
def number? (s : List Char) : Option Nat :=
  let t := trim s
  let value := match afterHexMark? t with
    | some digits => unsigned? 16 digits
    | none => unsigned? 10 t
  value.filter (· < valueLimit)

/-- Reads a number that is at most `max`. -/
def numberUpTo? (max : Nat) (s : List Char) : Option Nat := (number? s).filter (· ≤ max)

/-! ## Printing -/

/-- The digits of a number without leading zeros. -/
def digits (base : Nat) (n : Nat) : List Char :=
  if n < base ∨ base < 2 then [digitChar n]
  else digits base (n / base) ++ [digitChar (n % base)]
termination_by n
decreasing_by exact Nat.div_lt_self (by omega) (by omega)

/-- Zeros in front of a text up to a least width. -/
def padZero (width : Nat) (s : List Char) : List Char :=
  List.replicate (width - s.length) '0' ++ s

/-- The hexadecimal form of a number, at least `width` digits wide. -/
def hex (width n : Nat) : List Char := padZero width (digits 16 n)

/-- The decimal form of a number. -/
def decimal (n : Nat) : List Char := digits 10 n

/-! ## Reading what was printed -/

theorem continued_append (base : Nat) (s t : List Char) (acc : Nat) :
    continued base acc (s ++ t) = (continued base acc s).bind fun a => continued base a t := by
  induction s generalizing acc with
  | nil => rfl
  | cons c rest ih =>
    simp only [List.cons_append, continued]
    cases digitIn base c with
    | none => rfl
    | some d => exact ih _

theorem digits_ne_nil (base n : Nat) : digits base n ≠ [] := by
  unfold digits
  split <;> simp

/-- Digits that start from zero read back as the number they were printed from. -/
theorem continued_digits {base : Nat} (h2 : 2 ≤ base) (h16 : base ≤ 16) (n : Nat) :
    continued base 0 (digits base n) = some n := by
  induction n using Nat.strongRecOn with
  | _ n ih =>
    unfold digits
    split
    · next h =>
      have hn : n < base := by omega
      simp [continued, digitIn_digitChar h16 hn]
    · next h =>
      have hlt : n / base < n := Nat.div_lt_self (by omega) (by omega)
      rw [continued_append, ih _ hlt]
      have hm : n % base < base := Nat.mod_lt _ (by omega)
      simp only [Option.bind_some, continued, digitIn_digitChar h16 hm]
      congr 1
      rw [Nat.mul_comm]
      exact Nat.div_add_mod n base

/-- Leading zeros do not change the value. -/
theorem continued_replicate_zero {base : Nat} (h : 0 < base) (h16 : base ≤ 16) (k : Nat)
    (s : List Char) : continued base 0 (List.replicate k '0' ++ s) = continued base 0 s := by
  have hz : digitIn base '0' = some 0 := digitIn_digitChar (d := 0) h16 h
  induction k with
  | zero => rfl
  | succ k ih => simp [List.replicate_succ, continued, hz, ih]

/-- A printed decimal number reads back. -/
theorem digitsValue?_decimal (n : Nat) : digitsValue? 10 (decimal n) = some n := by
  have h := @continued_digits 10 (by omega) (by omega) n
  unfold decimal
  cases hd : digits 10 n with
  | nil => exact absurd hd (digits_ne_nil 10 n)
  | cons c rest => rw [hd] at h; exact h

/-- A printed hexadecimal number reads back, whatever its width. -/
theorem digitsValue?_hex (width n : Nat) : digitsValue? 16 (hex width n) = some n := by
  have h := @continued_digits 16 (by omega) (by omega) n
  rw [← continued_replicate_zero (by omega) (by omega) (width - (digits 16 n).length)] at h
  unfold hex padZero
  cases hd : List.replicate (width - (digits 16 n).length) '0' ++ digits 16 n with
  | nil => exact absurd (List.append_eq_nil_iff.mp hd).2 (digits_ne_nil 16 n)
  | cons c rest => rw [hd] at h; exact h

end ChipEight.Text
