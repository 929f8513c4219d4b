import ChipEight.Proofs.Text.Cuts
import ChipEight.Text.Letters

/-!
# Small letters and cuts

Texts are cut at blanks and punctuation, which have no case. So it makes no difference whether a
text is made small before it is cut or its parts are made small afterwards, and two texts with the
same letters have parts with the same letters.
-/

namespace ChipEight.Text

/-! ## Characters -/

/-- What does not change when an ASCII character is made small does not change at all: other
characters have no small letters of their own. -/
theorem apply_toLower {α : Type} {f : Char → α}
    (h : ∀ n ∈ List.range 128, f (Char.ofNat n).toLower = f (Char.ofNat n)) (c : Char) :
    f c.toLower = f c := by
  by_cases hc : c.toNat < 128
  · have hf := h c.toNat (List.mem_range.mpr hc)
    rwa [Char.ofNat_toNat] at hf
  · have hsame : c.toLower = c := by
      unfold Char.toLower
      split
      · next hup =>
        have hn : c.toNat ≤ 90 := UInt32.le_iff_toNat_le.mp hup.2
        omega
      · rfl
    rw [hsame]

theorem toLower_toLower (c : Char) : c.toLower.toLower = c.toLower :=
  apply_toLower (f := Char.toLower) (by decide +kernel) c

theorem isBlank_toLower (c : Char) : isBlank c.toLower = isBlank c :=
  apply_toLower (by decide +kernel) c

/-- A character at which texts are cut, or another one that has no case. -/
def IsCaseless (sep : Char) : Prop := ∀ c : Char, (c.toLower == sep) = (c == sep)

theorem isCaseless_of_forall {sep : Char}
    (h : ∀ n ∈ List.range 128, ((Char.ofNat n).toLower == sep) = (Char.ofNat n == sep)) :
    IsCaseless sep :=
  apply_toLower (f := (· == sep)) h

theorem isCaseless_comma : IsCaseless ',' := isCaseless_of_forall (by decide +kernel)

theorem isCaseless_colon : IsCaseless ':' := isCaseless_of_forall (by decide +kernel)

theorem isCaseless_semicolon : IsCaseless ';' := isCaseless_of_forall (by decide +kernel)

/-! ## Cuts -/

theorem lower_lower (s : List Char) : lower (lower s) = lower s := by
  rw [lower, lower, List.map_map]
  exact List.map_congr_left fun c _ => toLower_toLower c

theorem cutWhen_lower {p : Char → Bool} (hp : ∀ c : Char, p c.toLower = p c) (s : List Char) :
    cutWhen p (lower s) = (cutWhen p s).map fun parts => (lower parts.1, lower parts.2) := by
  induction s with
  | nil => rfl
  | cons c rest ih =>
    rw [lower, List.map_cons, cutWhen, cutWhen, hp]
    by_cases hc : p c = true
    · rw [if_pos hc, if_pos hc]
      rfl
    · rw [if_neg hc, if_neg hc, ← lower, ih, Option.map_map, Option.map_map]
      rfl

theorem cutAt_lower {sep : Char} (hsep : IsCaseless sep) (s : List Char) :
    cutAt sep (lower s) = (cutAt sep s).map fun parts => (lower parts.1, lower parts.2) :=
  cutWhen_lower (p := (· == sep)) hsep s

theorem headAndRest_lower (s : List Char) :
    headAndRest (lower s) = (lower (headAndRest s).1, lower (headAndRest s).2) := by
  rw [headAndRest, headAndRest, cutWhen_lower isBlank_toLower]
  cases cutWhen isBlank s <;> rfl

theorem pieces_lower {sep : Char} (hsep : IsCaseless sep) (s : List Char) :
    pieces sep (lower s) = (pieces sep s).map lower := by
  induction s with
  | nil => rfl
  | cons c rest ih =>
    have hc : c.toLower = sep ↔ c = sep := by
      rw [← beq_iff_eq, hsep c, beq_iff_eq]
    rw [lower, List.map_cons, ← lower, pieces, pieces, ih]
    by_cases heq : c = sep
    · rw [if_pos heq, if_pos (hc.mpr heq)]
      rfl
    · rw [if_neg heq, if_neg (fun h => heq (hc.mp h))]
      cases pieces sep rest <;> rfl

theorem dropWhile_lower {p : Char → Bool} (hp : ∀ c : Char, p c.toLower = p c) (s : List Char) :
    (lower s).dropWhile p = lower (s.dropWhile p) := by
  rw [lower, List.dropWhile_map]
  congr 2
  exact funext hp

theorem trim_lower (s : List Char) : trim (lower s) = lower (trim s) := by
  have hreverse : ∀ t : List Char, (lower t).reverse = lower t.reverse :=
    fun t => List.map_reverse.symm
  rw [trim, trimLeft, dropWhile_lower isBlank_toLower, trimRight, hreverse,
    dropWhile_lower isBlank_toLower, hreverse]
  rfl

end ChipEight.Text
