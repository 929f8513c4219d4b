import ChipEight.Proofs.Instruction.Reading
import ChipEight.Proofs.Source.Passes
import ChipEight.Source.Listing

/-!
# Lines of a listing as source lines

A listing has three kinds of lines: labels, words, and an odd byte at the end. As a source line a
label line defines its label and has no statement. The two others may have an address in front,
which the assembler takes for a name before a colon; what follows is one statement.

An address such as `204` is skipped, but one that starts with a letter, such as `a00`, becomes a
label of its own. This is harmless: operands never use it, as listings write addresses with a
dollar sign, and no label of the listing has such a name.
-/

namespace ChipEight

open Text Assembly

/-! ## Lines apart -/

theorem withoutComment_of_not_mem {raw : List Char} (h : ';' ∉ raw) : withoutComment raw = raw := by
  rw [withoutComment, cutAt_of_not_mem h]
  rfl

namespace Listing

/-- A label line has one name and no statement. -/
theorem ofText_labelLine (n : Nat) :
    SourceLine.ofText (labelName n ++ [':']) = { names := [labelName n], code := [] } := by
  have htoken := isToken_labelName n
  rw [SourceLine.ofText_append_colon (not_mem_of_isToken htoken (by decide))
    (not_mem_of_isToken htoken (by decide)), trim_of_isToken htoken]
  rfl

/-- The names in front of a line of a listing. -/
def markNames (options : ListingOptions) (address : Nat) : List (List Char) :=
  if options.addresses then [hex 3 address] else []

/-- A line with a phrase has that phrase for its statement. -/
theorem ofText_markedLine (options : ListingOptions) (address : Nat) {s : List Char}
    (hs : IsPhrase s) :
    SourceLine.ofText (addressMark options address ++ s) =
      { names := markNames options address, code := s } := by
  have hcolon : ':' ∉ s := hs.not_mem (by decide) (by decide)
  have hsemi : ';' ∉ s := hs.not_mem (by decide) (by decide)
  have hown : SourceLine.ofText s = { names := [], code := s } := by
    simp only [SourceLine.ofText, withoutComment_of_not_mem hsemi, pieces_of_not_mem hcolon,
      List.map_cons, List.map_nil, hs.trim_eq]
    rfl
  cases hoption : options.addresses with
  | false =>
    have hmark : addressMark options address = [] := by simp [addressMark, hoption]
    rw [hmark, List.nil_append, hown, markNames, hoption]
    rfl
  | true =>
    have hmark : addressMark options address ++ s = hex 3 address ++ ':' :: ' ' :: s := by
      simp [addressMark, hoption]
    have htoken := isToken_hex 3 address
    rw [hmark, SourceLine.ofText_append_colon (not_mem_of_isToken htoken (by decide))
      (not_mem_of_isToken htoken (by decide)), SourceLine.ofText_cons_of_blank (by decide), hown,
      trim_of_isToken htoken, markNames, hoption]
    rfl

/-! ## Line ends -/

theorem not_mem_addressMark (options : ListingOptions) (address : Nat) {c : Char}
    (hc : isPlain c = false) (hne : c ≠ ':' ∧ c ≠ ' ') : c ∉ addressMark options address := by
  unfold addressMark
  split
  · intro hm
    rcases List.mem_append.mp hm with hm | hm
    · exact not_mem_of_isToken (isToken_hex 3 address) hc hm
    · simp [hne] at hm
  · simp

/-- The text of the odd byte is a phrase. -/
theorem isPhrase_byteText (byte : UInt8) : IsPhrase (".db ".toList ++ dollar 2 byte.toNat) := by
  have hdirective : IsPhrase ".db".toList := .of_isToken (by decide)
  show IsPhrase (".db".toList ++ ([' '] ++ dollar 2 byte.toNat))
  exact hdirective.append (.of_isToken (isToken_dollar 2 byte.toNat)) (by simp)

/-- The lines of a word hold no line end. -/
theorem not_mem_wordLines {options : ListingOptions} {targets : List UInt16} {address : Nat}
    {w : UInt16} {l : List Char} (h : l ∈ wordLines options targets address w) {c : Char}
    (hc : isPlain c = false) (hne : c ≠ ':' ∧ c ≠ ' ' ∧ c ≠ ',') : c ∉ l := by
  have hlabel : ∀ n, c ∉ labelName n ++ [':'] := by
    intro n hm
    rcases List.mem_append.mp hm with hm | hm
    · exact not_mem_of_isToken (isToken_labelName n) hc hm
    · simp [hne.1] at hm
  rcases List.mem_append.mp h with h | h
  · split at h
    · rw [List.mem_singleton.mp h]
      exact hlabel _
    · simp at h
  · rw [List.mem_singleton.mp h]
    intro hm
    rcases List.mem_append.mp hm with hm | hm
    · exact not_mem_addressMark options address hc ⟨hne.1, hne.2.1⟩ hm
    · exact (isPhrase_wordText _ w).not_mem hc hne.2 hm

theorem not_mem_linesFrom {options : ListingOptions} {targets : List UInt16} {l : List Char}
    {c : Char} (hc : isPlain c = false) (hne : c ≠ ':' ∧ c ≠ ' ' ∧ c ≠ ',') :
    ∀ {address : Nat} {ws : List UInt16}, l ∈ linesFrom options targets address ws → c ∉ l
  | _, [], h => by simp [linesFrom] at h
  | _, w :: ws, h => by
    rcases List.mem_append.mp h with h | h
    · exact not_mem_wordLines h hc hne
    · exact not_mem_linesFrom hc hne h

/-- The lines of a listing are the lines of its text. -/
theorem lines_characters (options : ListingOptions) (program : List UInt8) :
    Text.lines (characters options program) = lines options program := by
  have hfree : ∀ l ∈ lines options program, ∀ c, isPlain c = false →
      (c ≠ ':' ∧ c ≠ ' ' ∧ c ≠ ',') → c ∉ l := by
    intro l hl c hc hne
    rcases List.mem_append.mp hl with hl | hl
    · exact not_mem_linesFrom hc hne hl
    · obtain ⟨byte, -, rfl⟩ := List.mem_map.mp hl
      rw [byteLine, List.append_assoc]
      intro hm
      rcases List.mem_append.mp hm with hm | hm
      · exact not_mem_addressMark options _ hc ⟨hne.1, hne.2.1⟩ hm
      · exact (isPhrase_byteText byte).not_mem hc hne.2 hm
  refine lines_flatMap ?_
  intro l hl
  exact ⟨hfree l hl '\n' (by decide) (by decide), hfree l hl '\r' (by decide) (by decide)⟩

end Listing
end ChipEight
