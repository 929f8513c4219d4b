import Mathlib.Data.List.Basic
import ChipEight.Proofs.Text.Cuts
import ChipEight.Proofs.Text.Numbers
import ChipEight.Source.Assembly

/-!
# Tokens and phrases

Mnemonics and operands are tokens: they hold no character at which source text is cut. The text of
an instruction is a phrase, tokens with blanks and commas between them. So a phrase stands in a
source line without being cut at a colon or a semicolon, and its operands come apart again.
-/

namespace ChipEight

open Text Assembly

/-! ## Tokens -/

/-- Whether a character can stand inside a mnemonic or an operand: source text is not cut at it. -/
def isPlain (c : Char) : Bool := !isBlank c && c != ',' && c != ':' && c != ';'

/-- A mnemonic or an operand: some plain characters. -/
def isToken (s : List Char) : Bool := !s.isEmpty && s.all isPlain

theorem isBlank_of_isPlain {c : Char} (h : isPlain c = true) : isBlank c = false := by
  simp only [isPlain, Bool.and_eq_true, Bool.not_eq_true'] at h
  exact h.1.1.1

theorem isToken_iff {s : List Char} : isToken s = true ↔ s ≠ [] ∧ ∀ c ∈ s, isPlain c = true := by
  simp [isToken]

theorem not_mem_of_isToken {s : List Char} (h : isToken s = true) {c : Char}
    (hc : isPlain c = false) : c ∉ s := by
  intro hm
  have hplain := (isToken_iff.mp h).2 c hm
  rw [hc] at hplain
  exact absurd hplain (by simp)

theorem trim_of_isToken {s : List Char} (h : isToken s = true) : trim s = s :=
  trim_eq_self fun c hc => isBlank_of_isPlain ((isToken_iff.mp h).2 c hc)

/-- A token in front of a blank is the first word. -/
theorem headAndRest_of_isToken {a : List Char} (h : isToken a = true) (b : List Char) :
    headAndRest (a ++ ' ' :: b) = (a, b) :=
  headAndRest_append (fun c hc => isBlank_of_isPlain ((isToken_iff.mp h).2 c hc)) b

theorem isToken_hex (width n : Nat) : isToken (hex width n) = true :=
  isToken_iff.mpr ⟨hex_ne_nil width n, forall_mem_hex (by decide) width n⟩

theorem isToken_decimal (n : Nat) : isToken (decimal n) = true :=
  isToken_iff.mpr ⟨digits_ne_nil 10 n, forall_mem_decimal (by decide) n⟩

/-- A hexadecimal number that is no address mark is a name. -/
theorem isName_hex {width a : Nat} (h : isAddressMark (hex width a) = false) :
    isName (hex width a) = true := by
  have hchars : ∀ c ∈ hex width a,
      isHexDigit c = true ∧ isNameChar c = true ∧ (c.isDigit = true ∨ isLetter c = true) :=
    forall_mem_hex (by decide) width a
  cases hs : hex width a with
  | nil => exact absurd hs (hex_ne_nil width a)
  | cons c rest =>
    rw [hs] at h hchars
    have hrest : rest.all isHexDigit = true :=
      List.all_eq_true.mpr fun d hd => (hchars d (List.mem_cons_of_mem _ hd)).1
    have hname : rest.all isNameChar = true :=
      List.all_eq_true.mpr fun d hd => (hchars d (List.mem_cons_of_mem _ hd)).2.1
    have hletter : isLetter c = true := by
      rcases (hchars c List.mem_cons_self).2.2 with hc | hc
      · simp [isAddressMark, hc, hrest] at h
      · exact hc
    simp [isName, hletter, hname]

/-- A token with more plain characters in front is a token. -/
theorem isToken_append {a b : List Char} (ha : a.all isPlain = true) (hb : isToken b = true) :
    isToken (a ++ b) = true := by
  obtain ⟨hne, hb⟩ := isToken_iff.mp hb
  refine isToken_iff.mpr ⟨by simp [hne], ?_⟩
  intro c hc
  rcases List.mem_append.mp hc with hc | hc
  · exact List.all_eq_true.mp ha c hc
  · exact hb c hc

theorem isToken_dollar (width n : Nat) : isToken (dollar width n) = true :=
  isToken_append (a := ['$']) (by decide) (isToken_hex width n)

/-! ## Phrases -/

/-- The text of an instruction: tokens with blanks and commas between them. -/
structure IsPhrase (s : List Char) : Prop where
  ne_nil : s ≠ []
  chars : ∀ c ∈ s, isPlain c = true ∨ c = ' ' ∨ c = ','
  first : ∀ c ∈ s.head?, isPlain c = true
  last : ∀ c ∈ s.getLast?, isPlain c = true

namespace IsPhrase

theorem of_isToken {s : List Char} (h : isToken s = true) : IsPhrase s := by
  obtain ⟨hne, hs⟩ := isToken_iff.mp h
  exact
    { ne_nil := hne
      chars := fun c hc => Or.inl (hs c hc)
      first := fun c hc => hs c (List.mem_of_mem_head? hc)
      last := fun c hc => hs c (List.mem_of_getLast? hc) }

theorem append {a b sep : List Char} (ha : IsPhrase a) (hb : IsPhrase b)
    (hsep : ∀ c ∈ sep, c = ' ' ∨ c = ',') : IsPhrase (a ++ (sep ++ b)) where
  ne_nil := by simp [ha.ne_nil]
  chars := by
    intro c hc
    rcases List.mem_append.mp hc with hc | hc
    · exact ha.chars c hc
    · rcases List.mem_append.mp hc with hc | hc
      · exact Or.inr (hsep c hc)
      · exact hb.chars c hc
  first := by
    rw [List.head?_append_of_ne_nil _ ha.ne_nil]
    exact ha.first
  last := by
    rw [List.getLast?_append_of_ne_nil _ (by simp [hb.ne_nil]),
      List.getLast?_append_of_ne_nil _ hb.ne_nil]
    exact hb.last

/-- Tokens that are joined by commas and blanks. -/
theorem intercalate : ∀ {parts : List (List Char)}, parts ≠ [] →
    (∀ part ∈ parts, isToken part = true) → IsPhrase ([',', ' '].intercalate parts)
  | [], h, _ => absurd rfl h
  | [part], _, h => by
    rw [List.intercalate_singleton]
    exact of_isToken (h part List.mem_cons_self)
  | part :: next :: rest, _, h => by
    rw [List.intercalate_cons_cons, List.append_assoc]
    refine append (of_isToken (h part List.mem_cons_self)) (intercalate (by simp) ?_) (by simp)
    exact fun p hp => h p (List.mem_cons_of_mem _ hp)

/-- A phrase has no blanks around it. -/
theorem trim_eq {s : List Char} (h : IsPhrase s) : trim s = s :=
  trim_eq_self_of_ends (fun c hc => isBlank_of_isPlain (h.first c hc))
    (fun c hc => isBlank_of_isPlain (h.last c hc))

/-- A phrase holds no character that is neither plain nor a blank or comma between tokens. -/
theorem not_mem {s : List Char} (h : IsPhrase s) {c : Char} (hc : isPlain c = false)
    (hne : c ≠ ' ' ∧ c ≠ ',') : c ∉ s := by
  intro hm
  rcases h.chars c hm with hp | hp | hp
  · rw [hc] at hp
    exact absurd hp (by simp)
  · exact hne.1 hp
  · exact hne.2 hp

end IsPhrase

/-! ## Operands -/

/-- Tokens that were joined as operands are the operands again. -/
theorem operandsOf_intercalate {parts : List (List Char)} (hne : parts ≠ [])
    (h : ∀ part ∈ parts, isToken part = true) :
    operandsOf ([',', ' '].intercalate parts) = parts := by
  have hphrase := IsPhrase.intercalate hne h
  rw [operandsOf, if_neg (by simp [hphrase.trim_eq, hphrase.ne_nil])]
  refine map_trim_pieces_intercalate (by decide) hne ?_
  intro part hpart
  have hplain := (isToken_iff.mp (h part hpart)).2
  refine ⟨not_mem_of_isToken (h part hpart) (by decide), ?_⟩
  exact fun c hc => isBlank_of_isPlain (hplain c hc)

end ChipEight
