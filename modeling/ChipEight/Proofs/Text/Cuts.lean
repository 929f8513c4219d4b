import ChipEight.Text.Pieces

/-!
# Cuts of texts that were put together

A text that was joined from parts is cut into the same parts again, as long as no part holds the
character at which it is cut. This is the half of every round trip through source text that does
not know what the parts mean.

* `lines_flatMap`: lines that were ended one by one.
* `map_trim_pieces_intercalate`: parts that were joined by a separator and a blank.
* `headAndRest_append`: a first word, a blank and the rest.
* `lines_append_of_getLast?`, `lines_append_of_not_mem`: texts that stand one behind another.
-/

namespace ChipEight.Text

/-! ## One cut -/

theorem cutWhen_append {p : Char → Bool} {c : Char} (hc : p c = true) (b : List Char) :
    ∀ {a : List Char}, (∀ d ∈ a, p d = false) → cutWhen p (a ++ c :: b) = some (a, b)
  | [], _ => by
    rw [List.nil_append, cutWhen, if_pos hc]
  | d :: a, h => by
    have hd : ¬p d = true := by simp [h d List.mem_cons_self]
    rw [List.cons_append, cutWhen, if_neg hd,
      cutWhen_append hc b (fun e he => h e (List.mem_cons_of_mem _ he))]
    rfl

/-- Characters at which there is no cut stay in front of the first part. -/
theorem cutWhen_append_of_forall {p : Char → Bool} (b : List Char) :
    ∀ {a : List Char}, (∀ c ∈ a, p c = false) →
      cutWhen p (a ++ b) = (cutWhen p b).map fun parts => (a ++ parts.1, parts.2)
  | [], _ => by
    cases hb : cutWhen p b <;> simp [hb]
  | c :: a, h => by
    have hc : ¬p c = true := by simp [h c List.mem_cons_self]
    rw [List.cons_append, cutWhen, if_neg hc,
      cutWhen_append_of_forall b fun d hd => h d (List.mem_cons_of_mem _ hd), Option.map_map]
    rfl

/-- A text without the separator is not cut. -/
theorem cutAt_of_not_mem {sep : Char} {s : List Char} (h : sep ∉ s) : cutAt sep s = none := by
  refine cutWhen_eq_none_iff.mpr ?_
  intro c hc
  simpa using fun heq : c = sep => h (heq ▸ hc)

/-- The first word ends at the first blank. -/
theorem headAndRest_append {a : List Char} (h : ∀ c ∈ a, isBlank c = false) (b : List Char) :
    headAndRest (a ++ ' ' :: b) = (a, b) := by
  rw [headAndRest, cutWhen_append (by decide) b h]
  rfl

/-- A text without blanks is one word. -/
theorem headAndRest_of_not_blank {s : List Char} (h : ∀ c ∈ s, isBlank c = false) :
    headAndRest s = (s, []) := by
  rw [headAndRest, cutWhen_eq_none_iff.mpr h]
  rfl

/-! ## Many cuts -/

theorem pieces_of_not_mem {sep : Char} : ∀ {s : List Char}, sep ∉ s → pieces sep s = [s]
  | [], _ => rfl
  | c :: s, h => by
    have hc : ¬c = sep := fun heq => h (heq ▸ List.mem_cons_self)
    rw [pieces, if_neg hc, pieces_of_not_mem (fun hm => h (List.mem_cons_of_mem _ hm))]

theorem pieces_append {sep : Char} (b : List Char) :
    ∀ {a : List Char}, sep ∉ a → pieces sep (a ++ sep :: b) = a :: pieces sep b
  | [], _ => by
    rw [List.nil_append, pieces, if_pos rfl]
  | c :: a, h => by
    have hc : ¬c = sep := fun heq => h (heq ▸ List.mem_cons_self)
    rw [List.cons_append, pieces, if_neg hc,
      pieces_append b (fun hm => h (List.mem_cons_of_mem _ hm))]

/-! ## Trimming -/

theorem trimLeft_cons_of_blank {c : Char} (h : isBlank c = true) (s : List Char) :
    trimLeft (c :: s) = trimLeft s := by
  unfold trimLeft
  rw [List.dropWhile_cons_of_pos h]

/-- A text that starts with a character other than a blank keeps its start. -/
theorem trimLeft_eq_self {s : List Char} (h : ∀ c ∈ s.head?, isBlank c = false) :
    trimLeft s = s := by
  cases s with
  | nil => rfl
  | cons c s =>
    have hc : ¬isBlank c = true := by simp [h c rfl]
    unfold trimLeft
    rw [List.dropWhile_cons_of_neg hc]

/-- A text that ends in a character other than a blank keeps its end. -/
theorem trimRight_eq_self {s : List Char} (h : ∀ c ∈ s.getLast?, isBlank c = false) :
    trimRight s = s := by
  have hrev : trimLeft s.reverse = s.reverse := by
    apply trimLeft_eq_self
    rw [List.head?_reverse]
    exact h
  unfold trimRight
  rw [show s.reverse.dropWhile isBlank = s.reverse from hrev, List.reverse_reverse]

/-- A text without blanks at its ends stays as it is, whatever stands between them. -/
theorem trim_eq_self_of_ends {s : List Char} (hfirst : ∀ c ∈ s.head?, isBlank c = false)
    (hlast : ∀ c ∈ s.getLast?, isBlank c = false) : trim s = s := by
  rw [trim, trimLeft_eq_self hfirst, trimRight_eq_self hlast]

/-- A blank in front of a text is trimmed away. -/
theorem trim_cons_of_blank {c : Char} (h : isBlank c = true) (s : List Char) :
    trim (c :: s) = trim s := by
  rw [trim, trimLeft_cons_of_blank h]
  rfl

/-- A blank in front of a text is trimmed away from its first piece. -/
theorem map_trim_pieces_cons_of_blank {sep c : Char} (hb : isBlank c = true) (hc : c ≠ sep)
    (s : List Char) : (pieces sep (c :: s)).map trim = (pieces sep s).map trim := by
  obtain ⟨first, more, hp⟩ := List.exists_cons_of_ne_nil (pieces_ne_nil sep s)
  rw [pieces, if_neg hc, hp]
  simp only [List.map_cons, trim_cons_of_blank hb]

/-! ## Joined parts -/

/-- Parts that were joined by a separator and a blank come apart again. -/
theorem map_trim_pieces_intercalate {sep : Char} (hsep : isBlank sep = false) :
    ∀ {parts : List (List Char)}, parts ≠ [] →
      (∀ part ∈ parts, sep ∉ part ∧ ∀ c ∈ part, isBlank c = false) →
      (pieces sep ([sep, ' '].intercalate parts)).map trim = parts
  | [], h, _ => absurd rfl h
  | [part], _, h => by
    obtain ⟨hs, hb⟩ := h part List.mem_cons_self
    rw [List.intercalate_singleton, pieces_of_not_mem hs, List.map_singleton, trim_eq_self hb]
  | part :: next :: rest, _, h => by
    obtain ⟨hs, hb⟩ := h part List.mem_cons_self
    have hnext : next :: rest ≠ [] := by simp
    have ih := map_trim_pieces_intercalate hsep hnext
      (fun p hp => h p (List.mem_cons_of_mem _ hp))
    have hne : ' ' ≠ sep := by
      rintro rfl
      exact absurd hsep (by decide)
    -- The blank after the separator stands in front of the first part of the rest.
    rw [List.intercalate_cons_cons, List.append_assoc, List.cons_append, pieces_append _ hs,
      List.map_cons, trim_eq_self hb, List.cons_append, List.nil_append,
      map_trim_pieces_cons_of_blank (by decide) hne, ih]

/-! ## Lines -/

/-- A line that holds no line end, with a line feed after it, is the first line. -/
theorem lines_append (rest : List Char) : ∀ {line : List Char}, '\n' ∉ line → '\r' ∉ line →
    lines (line ++ '\n' :: rest) = line :: lines rest
  | [], _, _ => by
    rw [List.nil_append, lines]
  | c :: line, hn, hr => by
    have hc : c ≠ '\n' := fun heq => hn (heq ▸ List.mem_cons_self)
    have hd : c ≠ '\r' := fun heq => hr (heq ▸ List.mem_cons_self)
    have hn' : '\n' ∉ line := fun hm => hn (List.mem_cons_of_mem _ hm)
    have hr' : '\r' ∉ line := fun hm => hr (List.mem_cons_of_mem _ hm)
    have ih := lines_append rest hn' hr'
    rw [List.cons_append, lines, ih]
    · exact hc
    · intro t heq
      exact absurd heq hd

/-- Lines that were ended one by one are the lines of the text. -/
theorem lines_flatMap : ∀ {ls : List (List Char)}, (∀ l ∈ ls, '\n' ∉ l ∧ '\r' ∉ l) →
    lines (ls.flatMap (· ++ ['\n'])) = ls
  | [], _ => rfl
  | l :: ls, h => by
    obtain ⟨hn, hr⟩ := h l List.mem_cons_self
    rw [List.flatMap_cons, List.append_assoc, List.singleton_append, lines_append _ hn hr,
      lines_flatMap (fun k hk => h k (List.mem_cons_of_mem _ hk))]

theorem eq_nil_of_lines {s : List Char} (h : lines s = []) : s = [] := by
  fun_cases lines s with
  | case1 => rfl
  | case2 | case3 => simp [lines] at h
  | case4 | case5 => simp_all [lines]

/-- A line feed at the end of a text keeps its lines apart from those of the text behind it. -/
theorem lines_append_of_getLast? (b : List Char) {a : List Char}
    (h : ∀ c ∈ a.getLast?, c = '\n') : lines (a ++ b) = lines a ++ lines b := by
  have hlater : ∀ {c : Char} {rest : List Char}, (∀ d ∈ (c :: rest).getLast?, d = '\n') →
      ∀ d ∈ rest.getLast?, d = '\n' := by
    intro c rest h d hd
    refine h d ?_
    rw [List.getLast?_cons, Option.mem_def.mp hd]
    rfl
  fun_induction lines a with
  | case1 => rfl
  | case2 rest ih =>
    rw [List.cons_append, lines, ih (hlater h)]
    rfl
  | case3 rest ih =>
    rw [List.cons_append, List.cons_append, lines, ih (hlater (hlater h))]
    rfl
  | case4 c rest hfeed hreturn hnil ih =>
    obtain rfl := eq_nil_of_lines hnil
    exact absurd (h c rfl) hfeed
  | case5 c rest hfeed hreturn first more hfirst ih =>
    -- The text behind adds no line feed to a carriage return, as this is not the last character.
    have hreturn' : ∀ t, c = '\r' → rest ++ b = '\n' :: t → False := by
      intro t hc ht
      cases rest with
      | nil => cases hfirst
      | cons d rest =>
        obtain ⟨rfl, -⟩ := List.cons.inj ht
        exact hreturn rest hc rfl
    rw [List.cons_append, lines, ih (hlater h), hfirst]
    · rfl
    · exact hfeed
    · exact hreturn'

/-- A character that ends no line is the first of the first line. -/
theorem lines_cons {c : Char} (hn : c ≠ '\n') (hr : c ≠ '\r') (s : List Char) :
    lines (c :: s) = (c :: (lines s).headD []) :: (lines s).tail := by
  rw [lines]
  · cases lines s <;> rfl
  · exact hn
  · intro t heq
    exact absurd heq hr

/-- What stands in front of a text and holds no line end stands in front of its first line. -/
theorem lines_append_of_not_mem (s : List Char) : ∀ {a : List Char}, a ≠ [] → '\n' ∉ a → '\r' ∉ a →
    lines (a ++ s) = (a ++ (lines s).headD []) :: (lines s).tail
  | [], hne, _, _ => absurd rfl hne
  | c :: a, _, hn, hr => by
    have hc : c ≠ '\n' := fun heq => hn (heq ▸ List.mem_cons_self)
    have hd : c ≠ '\r' := fun heq => hr (heq ▸ List.mem_cons_self)
    rw [List.cons_append, lines_cons hc hd]
    cases a with
    | nil => rfl
    | cons d a =>
      rw [lines_append_of_not_mem s (List.cons_ne_nil d a)
        (fun hm => hn (List.mem_cons_of_mem _ hm)) (fun hm => hr (List.mem_cons_of_mem _ hm))]
      rfl

end ChipEight.Text
