import Mathlib.Data.List.DropRight
import Mathlib.Data.List.TakeWhile
import ChipEight.Proofs.Text.Phrase

/-!
# More blanks in a text

Blanks that are put into a text part no token, as long as they do not go between two plain
characters (`Gap`). Every cut of a text leaves the blanks in one of the parts, and there they stand
between the same characters as before or at an end (`Spread.pieces`, `SpreadInside.headAndRest`).
Around a token they are trimmed away (`Spread.trim_eq`), so parts that are all tokens stay the same
(`Spread.map_trim_pieces`, `Spread.operandsOf`).
-/

namespace ChipEight

open Text Assembly

variable {a b s t w : List Char}

/-! ## Blanks at the ends -/

theorem trimLeft_eq_nil_iff : trimLeft s = [] ↔ ∀ c ∈ s, isBlank c = true :=
  List.dropWhile_eq_nil_iff

theorem trimRight_eq_nil_iff : trimRight s = [] ↔ ∀ c ∈ s, isBlank c = true :=
  List.rdropWhile_eq_nil_iff

theorem trimLeft_append_of_blank (h : ∀ c ∈ w, isBlank c = true) (s : List Char) :
    trimLeft (w ++ s) = trimLeft s :=
  List.dropWhile_append_of_pos h

theorem trimLeft_append (h : trimLeft a ≠ []) (b : List Char) :
    trimLeft (a ++ b) = trimLeft a ++ b := by
  have hempty : ¬(a.dropWhile isBlank).isEmpty = true := fun he => h (List.isEmpty_iff.mp he)
  rw [trimLeft, List.dropWhile_append, if_neg hempty]
  rfl

theorem trimRight_append_of_blank (h : ∀ c ∈ w, isBlank c = true) (s : List Char) :
    trimRight (s ++ w) = trimRight s := by
  have hreverse : ∀ c ∈ w.reverse, isBlank c = true := fun c hc => h c (List.mem_reverse.mp hc)
  rw [trimRight, List.reverse_append, List.dropWhile_append_of_pos hreverse]
  rfl

theorem trimRight_append (h : trimRight b ≠ []) (a : List Char) :
    trimRight (a ++ b) = a ++ trimRight b := by
  have hleft : trimLeft b.reverse ≠ [] := fun he => h (List.reverse_eq_nil_iff.mpr he)
  have happend := trimLeft_append hleft a.reverse
  rw [trimLeft, ← List.reverse_append] at happend
  rw [trimRight, happend, List.reverse_append, List.reverse_reverse]
  rfl

theorem trim_append_of_blank_left (h : ∀ c ∈ w, isBlank c = true) (s : List Char) :
    trim (w ++ s) = trim s := by
  rw [trim, trimLeft_append_of_blank h, trim]

theorem trim_append_of_blank_right (h : ∀ c ∈ w, isBlank c = true) (s : List Char) :
    trim (s ++ w) = trim s := by
  by_cases hs : trimLeft s = []
  · have hblank : ∀ c ∈ s ++ w, isBlank c = true :=
      List.forall_mem_append.mpr ⟨trimLeft_eq_nil_iff.mp hs, h⟩
    rw [trim, trimLeft_eq_nil_iff.mpr hblank, trim, hs]
  · rw [trim, trimLeft_append hs, trimRight_append_of_blank h, trim]

/-- A text with something else than blanks on both sides is trimmed on the outside only. -/
theorem trim_append (ha : trimLeft a ≠ []) (hb : trimRight b ≠ []) :
    trim (a ++ b) = trimLeft a ++ trimRight b := by
  rw [trim, trimLeft_append ha, trimRight_append hb]

theorem trim_eq_nil_iff : trim s = [] ↔ ∀ c ∈ s, isBlank c = true := by
  have hidem : trimLeft (trimLeft s) = trimLeft s := List.dropWhile_idempotent _ s
  rw [trim, trimRight_eq_nil_iff, ← trimLeft_eq_nil_iff, hidem, trimLeft_eq_nil_iff]

/-- A text that was trimmed has no blanks at its ends. -/
theorem trim_trim (s : List Char) : trim (trim s) = trim s := by
  refine trim_eq_self_of_ends (fun c hc => ?_) fun c hc => ?_
  · obtain ⟨back, hback⟩ : trim s <+: trimLeft s := List.rdropWhile_prefix isBlank (trimLeft s)
    have hne : trim s ≠ [] := fun he => by
      rw [he] at hc
      cases hc
    rw [← List.head?_append_of_ne_nil _ hne, hback] at hc
    have hfirst := List.head?_dropWhile_not isBlank s
    rw [show (s.dropWhile isBlank).head? = some c from hc] at hfirst
    exact hfirst
  · obtain ⟨hne, rfl⟩ := List.mem_getLast?_eq_getLast hc
    exact eq_false_of_ne_true (List.rdropWhile_last_not isBlank (trimLeft s) hne)

/-! ## Gaps -/

/-- Two texts with no token across the cut between them. -/
def Gap (a b : List Char) : Prop :=
  (∀ c ∈ a.getLast?, isPlain c = false) ∨ ∀ c ∈ b.head?, isPlain c = false

/-- The second text is the first one with blanks put into a gap. -/
inductive Spread : List Char → List Char → Prop
  | intro {a b w : List Char} (gap : Gap a b) (blank : ∀ c ∈ w, isBlank c = true) :
      Spread (a ++ b) (a ++ (w ++ b))

/-- The same, with the gap inside the text. -/
inductive SpreadInside : List Char → List Char → Prop
  | intro {a b w : List Char} (front : a ≠ []) (back : b ≠ []) (gap : Gap a b)
      (blank : ∀ c ∈ w, isBlank c = true) : SpreadInside (a ++ b) (a ++ (w ++ b))

/-- A part behind the last cut of the first text, and one in front of the first cut of the
second. -/
theorem Gap.mono (h : Gap a b) {a' b' : List Char} (ha : ∀ c ∈ a'.getLast?, c ∈ a.getLast?)
    (hb : ∀ c ∈ b'.head?, c ∈ b.head?) : Gap a' b' :=
  h.imp (fun hlast c hc => hlast c (ha c hc)) fun hhead c hc => hhead c (hb c hc)

/-- There is no gap inside plain text. -/
theorem SpreadInside.not_plain (h : SpreadInside s t) : ¬∀ c ∈ s, isPlain c = true := by
  obtain ⟨ha, hb, gap, -⟩ := h
  intro hplain
  obtain hlast | hhead := gap
  · have hc := hplain _ (List.mem_append_left _ (List.getLast_mem ha))
    rw [hlast _ (List.getLast?_eq_some_getLast ha)] at hc
    cases hc
  · have hc := hplain _ (List.mem_append_right _ (List.head_mem hb))
    rw [hhead _ (List.head?_eq_some_head hb)] at hc
    cases hc

theorem SpreadInside.ne_nil (h : SpreadInside s t) : s ≠ [] ∧ t ≠ [] := by
  obtain ⟨ha, hb, -, -⟩ := h
  exact ⟨List.append_ne_nil_of_left_ne_nil ha _, List.append_ne_nil_of_left_ne_nil ha _⟩

/-! ## Trimming -/

/-- Blanks that were put in are trimmed away, or stand inside the trimmed text. -/
theorem Spread.trim (h : Spread s t) :
    trim t = trim s ∨ SpreadInside (Text.trim s) (Text.trim t) := by
  obtain @⟨a, b, w, gap, blank⟩ := h
  by_cases ha : trimLeft a = []
  · have hblank := trimLeft_eq_nil_iff.mp ha
    left
    rw [trim_append_of_blank_left hblank, trim_append_of_blank_left hblank,
      trim_append_of_blank_left blank]
  by_cases hb : trimRight b = []
  · have hblank := trimRight_eq_nil_iff.mp hb
    left
    rw [← List.append_assoc, trim_append_of_blank_right hblank, trim_append_of_blank_right hblank,
      trim_append_of_blank_right blank]
  right
  have hwb : trimRight (w ++ b) = w ++ trimRight b := trimRight_append hb w
  have hne : trimRight (w ++ b) ≠ [] := by simp [hwb, hb]
  rw [trim_append ha hb, trim_append ha hne, hwb]
  refine .intro ha hb (gap.mono ?_ ?_) blank
  · intro c hc
    obtain ⟨front, hfront⟩ : trimLeft a <:+ a := List.dropWhile_suffix isBlank
    rw [← hfront, List.getLast?_append_of_ne_nil front ha]
    exact hc
  · intro c hc
    obtain ⟨back, hback⟩ : trimRight b <+: b := List.rdropWhile_prefix isBlank b
    rw [← hback, List.head?_append_of_ne_nil _ hb]
    exact hc

/-- Around a token, blanks do not matter. -/
theorem Spread.trim_eq (h : Spread s t) (hplain : ∀ c ∈ Text.trim s, isPlain c = true) :
    Text.trim t = Text.trim s :=
  h.trim.resolve_right fun hinside => hinside.not_plain hplain

/-! ## Cuts -/

theorem cutWhen_append_of_some {p : Char → Bool} (b : List Char) {a x y : List Char}
    (h : cutWhen p a = some (x, y)) : cutWhen p (a ++ b) = some (x, y ++ b) := by
  induction a generalizing x with
  | nil => cases h
  | cons c a ih =>
    rw [cutWhen] at h
    rw [List.cons_append, cutWhen]
    by_cases hc : p c = true
    · rw [if_pos hc] at h ⊢
      cases h
      rfl
    · rw [if_neg hc] at h ⊢
      obtain ⟨parts, hparts, heq⟩ := Option.map_eq_some_iff.mp h
      cases heq
      rw [ih (x := parts.1) hparts]
      rfl

theorem not_mem_of_blank {sep : Char} (hsep : isBlank sep = false)
    (h : ∀ c ∈ w, isBlank c = true) : sep ∉ w := by
  intro hm
  rw [h sep hm] at hsep
  cases hsep

/-- The pieces on both sides of a separator. -/
theorem pieces_append_sep (sep : Char) (a b : List Char) :
    pieces sep (a ++ sep :: b) = pieces sep a ++ pieces sep b := by
  induction a with
  | nil =>
    show pieces sep (sep :: b) = [] :: pieces sep b
    rw [pieces, if_pos rfl]
  | cons c a ih =>
    obtain ⟨first, more, ha⟩ := List.exists_cons_of_ne_nil (pieces_ne_nil sep a)
    rw [List.cons_append, pieces, ih, pieces, ha]
    by_cases hc : c = sep
    · rw [if_pos hc, if_pos hc]
      rfl
    · rw [if_neg hc, if_neg hc]
      rfl

/-- What stands before a text without a separator in between goes to its first piece. -/
theorem pieces_append_of_not_mem {sep : Char} {b first : List Char} {more : List (List Char)}
    (hb : pieces sep b = first :: more) :
    ∀ {a : List Char}, sep ∉ a → pieces sep (a ++ b) = (a ++ first) :: more
  | [], _ => hb
  | c :: a, h => by
    have hc : ¬c = sep := fun heq => h (heq ▸ List.mem_cons_self)
    have ih := pieces_append_of_not_mem hb fun hm => h (List.mem_cons_of_mem _ hm)
    rw [List.cons_append, pieces, if_neg hc, ih]
    rfl

/-- The last piece of a text goes on with the first piece of what follows. -/
theorem exists_pieces_append (sep : Char) (a : List Char) :
    ∃ before last, (∀ c ∈ last.getLast?, c ∈ a.getLast?) ∧ pieces sep a = before ++ [last] ∧
      ∀ {b first : List Char} {more : List (List Char)}, pieces sep b = first :: more →
        pieces sep (a ++ b) = before ++ (last ++ first) :: more := by
  by_cases h : sep ∈ a
  · -- The last piece starts behind the last separator.
    obtain ⟨last, front, ha, hlast⟩ := List.eq_append_cons_of_mem (List.mem_reverse.mpr h)
    have ha' : a = front.reverse ++ sep :: last.reverse := by
      rw [← List.reverse_reverse a, ha, List.reverse_append, List.reverse_cons, List.append_assoc]
      rfl
    have hnot : sep ∉ last.reverse := fun hm => hlast (List.mem_reverse.mp hm)
    refine ⟨pieces sep front.reverse, last.reverse, fun c hc => ?_, ?_, fun hb => ?_⟩
    · rw [ha', List.getLast?_append_of_ne_nil _ (List.cons_ne_nil _ _), List.getLast?_cons,
        Option.mem_def.mp hc]
      rfl
    · rw [ha', pieces_append_sep, pieces_of_not_mem hnot]
    · rw [ha', List.append_assoc, List.cons_append, pieces_append_sep,
        pieces_append_of_not_mem hb hnot]
  · refine ⟨[], a, fun _ hc => hc, pieces_of_not_mem h, fun hb => ?_⟩
    exact pieces_append_of_not_mem hb h

theorem head?_of_pieces {sep : Char} {first : List Char} {more : List (List Char)}
    (h : pieces sep b = first :: more) : ∀ c ∈ first.head?, c ∈ b.head? := by
  intro c hc
  cases b with
  | nil =>
    cases h
    exact hc
  | cons d b =>
    obtain ⟨first', more', hb⟩ := List.exists_cons_of_ne_nil (pieces_ne_nil sep b)
    rw [pieces, hb] at h
    split at h
    · cases h
      cases hc
    · cases h
      exact hc

/-- Blanks that were put into a text are in one of its pieces. -/
theorem Spread.pieces {sep : Char} (hsep : isBlank sep = false) (h : Spread s t) :
    ∃ before x y after, Text.pieces sep s = before ++ x :: after ∧
      Text.pieces sep t = before ++ y :: after ∧ Spread x y := by
  obtain @⟨a, b, w, gap, blank⟩ := h
  obtain ⟨before, last, hlast, -, hpieces⟩ := exists_pieces_append sep a
  obtain ⟨first, more, hb⟩ := List.exists_cons_of_ne_nil (pieces_ne_nil sep b)
  have hwb := pieces_append_of_not_mem hb (not_mem_of_blank hsep blank)
  exact ⟨before, last ++ first, last ++ (w ++ first), more, hpieces hb, hpieces hwb,
    .intro (gap.mono hlast (head?_of_pieces hb)) blank⟩

/-- Where all pieces are tokens or empty, they stay the same. -/
theorem Spread.map_trim_pieces {sep : Char} (hsep : isBlank sep = false) (h : Spread s t)
    (hplain : ∀ part ∈ (Text.pieces sep s).map Text.trim, ∀ c ∈ part, isPlain c = true) :
    (Text.pieces sep t).map Text.trim = (Text.pieces sep s).map Text.trim := by
  obtain ⟨before, x, y, after, hs, ht, hspread⟩ := h.pieces hsep
  rw [hs] at hplain
  have hx : ∀ c ∈ Text.trim x, isPlain c = true := hplain _ (by simp)
  rw [hs, ht, List.map_append, List.map_append, List.map_cons, List.map_cons, hspread.trim_eq hx]

theorem fst_headAndRest (s : List Char) : (headAndRest s).1 = s.takeWhile fun c => !isBlank c := by
  induction s with
  | nil => rfl
  | cons c s ih =>
    rw [headAndRest] at ih ⊢
    rw [cutWhen]
    by_cases hc : isBlank c = true
    · rw [if_pos hc, List.takeWhile_cons_of_neg (by simp [hc])]
      rfl
    · rw [if_neg hc, List.takeWhile_cons_of_pos (by simp [hc]), ← ih]
      cases cutWhen isBlank s <;> rfl

/-- Where the first word is a token, it stays, and the blanks are put into the rest. -/
theorem SpreadInside.headAndRest (h : SpreadInside s t)
    (hplain : ∀ c ∈ (headAndRest s).1, isPlain c = true) :
    (Text.headAndRest t).1 = (Text.headAndRest s).1 ∧
      ((Text.headAndRest t).2 = (Text.headAndRest s).2 ∨
        Spread (Text.headAndRest s).2 (Text.headAndRest t).2) := by
  obtain @⟨a, b, w, ha, hb, gap, blank⟩ := h
  cases hcut : cutWhen isBlank a with
  | some parts =>
    -- The word ends in front of the gap.
    obtain ⟨head, rest⟩ := parts
    obtain ⟨c, -, rfl⟩ := eq_append_of_cutWhen hcut
    have hparts : ∀ d, Text.headAndRest (head ++ c :: rest ++ d) = (head, rest ++ d) := by
      intro d
      rw [Text.headAndRest, cutWhen_append_of_some d hcut]
      rfl
    rw [hparts, hparts]
    refine ⟨rfl, .inr (.intro (gap.mono (fun d hd => ?_) fun _ hd => hd) blank)⟩
    rw [List.getLast?_append_of_ne_nil _ (List.cons_ne_nil _ _), List.getLast?_cons,
      Option.mem_def.mp hd]
    rfl
  | none =>
    have hnot := cutWhen_eq_none_iff.mp hcut
    cases w with
    | nil => exact ⟨rfl, .inl rfl⟩
    | cons d w =>
      -- The gap is behind the word, so the word was followed by a blank before.
      obtain ⟨c, b', rfl⟩ := List.exists_cons_of_ne_nil hb
      have hc : isBlank c = true := by
        by_contra hc
        have hhead : ∀ e ∈ a ++ [c], e ∈ (Text.headAndRest (a ++ c :: b')).1 := by
          rw [fst_headAndRest, List.takeWhile_append_of_pos fun e he => by simp [hnot e he],
            List.takeWhile_cons_of_pos (by simp [hc])]
          intro e he
          rw [List.append_cons]
          exact List.mem_append_left _ he
        have hinside : SpreadInside (a ++ [c]) (a ++ ([] ++ [c])) :=
          .intro ha (List.cons_ne_nil c []) (gap.mono (fun _ he => he) fun _ he => he) (by simp)
        exact hinside.not_plain fun e he => hplain e (hhead e he)
      have hparts : ∀ {e : Char} {rest : List Char}, isBlank e = true →
          Text.headAndRest (a ++ e :: rest) = (a, rest) := by
        intro e rest he
        rw [Text.headAndRest, cutWhen_append he _ hnot]
        rfl
      obtain ⟨hd, hw⟩ := List.forall_mem_cons.mp blank
      rw [List.cons_append, hparts hd, hparts hc]
      have hblank : ∀ e ∈ w ++ [c], isBlank e = true :=
        List.forall_mem_append.mpr ⟨hw, List.forall_mem_singleton.mpr hc⟩
      have hspread : Spread ([] ++ b') ([] ++ ((w ++ [c]) ++ b')) := .intro (.inl (by simp)) hblank
      rw [List.append_assoc] at hspread
      exact ⟨rfl, .inr hspread⟩

/-! ## Operands -/

theorem trim_of_mem_operandsOf {operand : List Char} (h : operand ∈ operandsOf s) :
    trim operand = operand := by
  rw [operandsOf] at h
  split at h
  · cases h
  · obtain ⟨part, -, rfl⟩ := List.mem_map.mp h
    exact trim_trim part

/-- Operands that are tokens stay the same. -/
theorem Spread.operandsOf (h : Spread s t)
    (hplain : ∀ operand ∈ Assembly.operandsOf s, ∀ c ∈ operand, isPlain c = true) :
    Assembly.operandsOf t = Assembly.operandsOf s := by
  have hempty : (Text.trim t).isEmpty = (Text.trim s).isEmpty := by
    obtain hsame | hinside := h.trim
    · rw [hsame]
    · obtain ⟨hs, ht⟩ := hinside.ne_nil
      rw [List.isEmpty_eq_false_iff.mpr hs, List.isEmpty_eq_false_iff.mpr ht]
  rw [Assembly.operandsOf] at hplain
  rw [Assembly.operandsOf, Assembly.operandsOf, hempty]
  by_cases hs : (Text.trim s).isEmpty = true
  · rw [if_pos hs, if_pos hs]
  · rw [if_neg hs] at hplain
    rw [if_neg hs, if_neg hs, h.map_trim_pieces (by decide) hplain]

end ChipEight
