import ChipEight.Text.Blank

/-!
# Cutting a text into pieces

Three ways to take a text apart: at the first character of a kind, at every occurrence of a
separator, and into lines.

## Termination

All of them recurse on the text itself.
-/

namespace ChipEight.Text

/-! ## One cut -/

/-- The parts before and after the first character that satisfies `p`, if there is one. -/
def cutWhen (p : Char → Bool) : List Char → Option (List Char × List Char)
  | [] => none
  | c :: rest =>
    if p c then some ([], rest)
    else (cutWhen p rest).map fun parts => (c :: parts.1, parts.2)

/-- The parts before and after the first occurrence of `sep`. -/
def cutAt (sep : Char) (s : List Char) : Option (List Char × List Char) := cutWhen (· == sep) s

/-- The first word of a text and what follows the blank after it; a text without a blank is all
word. -/
def headAndRest (s : List Char) : List Char × List Char := (cutWhen isBlank s).getD (s, [])

/-- A cut loses exactly the character it is made at. -/
theorem eq_append_of_cutWhen {p : Char → Bool} {s a b : List Char}
    (h : cutWhen p s = some (a, b)) : ∃ c, p c = true ∧ s = a ++ c :: b := by
  induction s generalizing a with
  | nil => simp [cutWhen] at h
  | cons c rest ih =>
    unfold cutWhen at h
    split at h
    · next hc =>
      cases h
      exact ⟨c, hc, rfl⟩
    · obtain ⟨parts, hp, heq⟩ := Option.map_eq_some_iff.mp h
      cases heq
      obtain ⟨d, hd, hrest⟩ := ih (a := parts.1) hp
      exact ⟨d, hd, by rw [hrest, List.cons_append]⟩

/-- There is no cut exactly when no character qualifies. -/
theorem cutWhen_eq_none_iff {p : Char → Bool} {s : List Char} :
    cutWhen p s = none ↔ ∀ c ∈ s, p c = false := by
  induction s with
  | nil => simp [cutWhen]
  | cons c rest ih =>
    by_cases hc : p c = true
    · simp [cutWhen, hc]
    · simp [cutWhen, hc, ih]

/-! ## Many cuts -/

/-- The texts between the occurrences of `sep`; there is always at least one. -/
def pieces (sep : Char) : List Char → List (List Char)
  | [] => [[]]
  | c :: rest =>
    if c = sep then [] :: pieces sep rest
    else
      match pieces sep rest with
      | [] => [[c]]
      | first :: more => (c :: first) :: more

theorem pieces_ne_nil (sep : Char) (s : List Char) : pieces sep s ≠ [] := by
  cases s with
  | nil => simp [pieces]
  | cons c rest =>
    unfold pieces
    split
    · simp
    · split <;> simp

/-- The pieces joined by the separator are the text again. -/
theorem intercalate_pieces (sep : Char) (s : List Char) :
    [sep].intercalate (pieces sep s) = s := by
  induction s with
  | nil => simp [pieces, List.intercalate]
  | cons c rest ih =>
    unfold pieces
    split
    · next hc =>
      subst hc
      obtain ⟨first, more, hp⟩ := List.exists_cons_of_ne_nil (pieces_ne_nil c rest)
      rw [hp] at ih ⊢
      simpa [List.intercalate, List.intersperse] using ih
    · next hc =>
      obtain ⟨first, more, hp⟩ := List.exists_cons_of_ne_nil (pieces_ne_nil sep rest)
      rw [hp] at ih ⊢
      cases more <;> simpa [List.intercalate, List.intersperse] using ih

/-! ## Lines -/

/-- The lines of a text. A line feed ends a line, with one carriage return right before it; a
text that ends in a line feed has no empty line after it. -/
def lines : List Char → List (List Char)
  | [] => []
  | '\n' :: rest => [] :: lines rest
  | '\r' :: '\n' :: rest => [] :: lines rest
  | c :: rest =>
    match lines rest with
    | [] => [[c]]
    | first :: more => (c :: first) :: more

end ChipEight.Text
