/-!
# Blank characters

A character is blank when it has the Unicode property `White_Space`. Trimming, the split of a
command line at its first blank and the test for an empty line all use this one set.
-/

namespace ChipEight.Text

/-! ## The set -/

/-- The code points with the property `White_Space`, as inclusive ranges in ascending order. -/
def blankRanges : List (Nat × Nat) :=
  [(0x0009, 0x000D), (0x0020, 0x0020), (0x0085, 0x0085), (0x00A0, 0x00A0), (0x1680, 0x1680),
   (0x2000, 0x200A), (0x2028, 0x2029), (0x202F, 0x202F), (0x205F, 0x205F), (0x3000, 0x3000)]

/-- Whether a character is blank. -/
def isBlank (c : Char) : Bool :=
  blankRanges.any fun r => r.1 ≤ c.toNat && c.toNat ≤ r.2

/-- Blanks of the ASCII range are the space and the five controls from tab to carriage return. -/
theorem isBlank_of_isWhitespace {c : Char} (h : c.isWhitespace = true) : isBlank c = true := by
  simp only [Char.isWhitespace, Bool.or_eq_true, decide_eq_true_eq] at h
  rcases h with ((h | h) | h) | h <;> subst h <;> decide

/-! ## Trimming -/

/-- A text without the blanks at its start. -/
def trimLeft (s : List Char) : List Char := s.dropWhile isBlank

/-- A text without the blanks at its end. -/
def trimRight (s : List Char) : List Char := (s.reverse.dropWhile isBlank).reverse

/-- A text without the blanks around it. -/
def trim (s : List Char) : List Char := trimRight (trimLeft s)

/-- A text without blanks stays as it is. -/
theorem trim_eq_self {s : List Char} (h : ∀ c ∈ s, isBlank c = false) : trim s = s := by
  have keep : ∀ t : List Char, (∀ c ∈ t, isBlank c = false) → t.dropWhile isBlank = t := by
    intro t ht
    cases t with
    | nil => rfl
    | cons c r => simp [ht c]
  have hl : trimLeft s = s := keep s h
  unfold trim
  rw [hl]
  unfold trimRight
  rw [keep s.reverse (fun c hc => h c (List.mem_reverse.mp hc)), List.reverse_reverse]

end ChipEight.Text
