import ChipEight.Proofs.Source.Restatement
import ChipEight.Proofs.Source.Tokens

/-!
# The parts of a changed line

What becomes of the labels and the code of a line when its text changes: when labels are put in
front (`SourceLine.ofText_append`) or a comment behind (`SourceLine.ofText_append_comment`), when
blanks are put in (`code_of_spread`), and when capitals become small letters
(`SourceLine.ofText_lower`).
-/

namespace ChipEight.Assembly

open Text

variable {a s t raw raw' : List Char}

/-! ## Comments -/

theorem withoutComment_of_not_mem (h : ';' ∉ raw) : withoutComment raw = raw := by
  rw [withoutComment, cutAt_of_not_mem h]
  rfl

/-- What stands behind a semicolon is comment. -/
theorem withoutComment_append_of_mem (h : ';' ∈ a) (b : List Char) :
    withoutComment (a ++ b) = withoutComment a := by
  cases hcut : cutWhen (· == ';') a with
  | none =>
    have hnone := cutWhen_eq_none_iff.mp hcut ';' h
    cases hnone
  | some parts =>
    obtain ⟨code, comment⟩ := parts
    rw [withoutComment, withoutComment, cutAt, cutAt, hcut, cutWhen_append_of_some b hcut]
    rfl

/-- A line without its comment starts like the line, unless it is all comment. -/
theorem head?_withoutComment {c : Char} (h : c ∈ (withoutComment raw).head?) : c ∈ raw.head? := by
  cases raw with
  | nil => exact h
  | cons d raw =>
    by_cases hd : d = ';'
    · subst hd
      cases h
    · have hnot : ';' ∉ [d] := fun hm => hd (List.mem_singleton.mp hm).symm
      rw [← List.singleton_append, withoutComment_append hnot] at h
      exact h

theorem withoutComment_lower (raw : List Char) :
    withoutComment (lower raw) = lower (withoutComment raw) := by
  rw [withoutComment, withoutComment, cutAt_lower isCaseless_semicolon]
  cases cutAt ';' raw <;> rfl

/-- Blanks that were put into a line are in its comment or in front of it. -/
theorem withoutComment_spread (h : Spread s t) :
    withoutComment t = withoutComment s ∨ Spread (withoutComment s) (withoutComment t) := by
  obtain @⟨a, b, w, gap, blank⟩ := h
  by_cases ha : ';' ∈ a
  · left
    rw [withoutComment_append_of_mem ha, withoutComment_append_of_mem ha]
  · right
    have hw : ';' ∉ w := not_mem_of_blank (by decide) blank
    rw [withoutComment_append ha, withoutComment_append ha, withoutComment_append hw]
    exact .intro (gap.mono (fun _ hc => hc) fun _ => head?_withoutComment) blank

/-! ## Lines put together -/

/-- The parts of a line, from its pieces between colons. -/
theorem SourceLine.ofText_eq {front : List (List Char)} {last : List Char}
    (h : pieces ':' (withoutComment raw) = front ++ [last]) :
    ofText raw = { names := front.map trim, code := trim last } := by
  rw [ofText, h, List.map_append, List.map_singleton, List.dropLast_concat, List.getLastD_concat]

theorem exists_pieces_eq_concat (sep : Char) (s : List Char) :
    ∃ front last, pieces sep s = front ++ [last] := by
  obtain ⟨before, last, -, hs, -⟩ := exists_pieces_append sep s
  exact ⟨before, last, hs⟩

/-- Labels with nothing but blanks behind them go in front of another line. -/
theorem SourceLine.ofText_append (hsemi : ';' ∉ a) (hcode : (ofText a).code = [])
    (raw : List Char) :
    ofText (a ++ raw) = { names := (ofText a).names ++ (ofText raw).names
                          code := (ofText raw).code } := by
  obtain ⟨before, last, -, ha, happend⟩ := exists_pieces_append ':' a
  rw [← withoutComment_of_not_mem hsemi] at ha
  rw [ofText_eq ha] at hcode
  have hblank : ∀ x, trim (last ++ x) = trim x :=
    trim_append_of_blank_left (trim_eq_nil_iff.mp hcode)
  obtain ⟨front, code, hraw⟩ := exists_pieces_eq_concat ':' (withoutComment raw)
  have hpieces : ∀ {first more}, pieces ':' (withoutComment raw) = first :: more →
      pieces ':' (withoutComment (a ++ raw)) = before ++ (last ++ first) :: more := by
    rw [withoutComment_append hsemi]
    exact happend
  cases front with
  | nil =>
    rw [ofText_eq (hpieces hraw), ofText_eq ha, ofText_eq hraw, hblank, List.map_nil,
      List.append_nil]
  | cons first more =>
    have hboth : pieces ':' (withoutComment (a ++ raw)) =
        (before ++ (last ++ first) :: more) ++ [code] := by
      rw [List.append_assoc]
      exact hpieces hraw
    rw [ofText_eq hboth, ofText_eq ha, ofText_eq hraw, List.map_append, List.map_cons, hblank,
      List.map_cons]

/-- A line that is blank in front of its comment has no parts. -/
theorem SourceLine.ofText_of_blank (h : ∀ c ∈ withoutComment raw, isBlank c = true) :
    ofText raw = { names := [], code := [] } := by
  have hcolon : ':' ∉ withoutComment raw := not_mem_of_blank (by decide) h
  have hpieces := pieces_of_not_mem hcolon
  rw [← List.nil_append [withoutComment raw]] at hpieces
  rw [ofText_eq hpieces, trim_eq_nil_iff.mpr h]
  rfl

/-- A comment behind a line does not matter. -/
theorem SourceLine.ofText_append_comment (raw comment : List Char) :
    ofText (raw ++ ';' :: comment) = ofText raw := by
  have hsame : withoutComment (raw ++ ';' :: comment) = withoutComment raw := by
    by_cases hsemi : ';' ∈ raw
    · exact withoutComment_append_of_mem hsemi _
    · rw [withoutComment_append hsemi, withoutComment_of_not_mem hsemi]
      exact List.append_nil raw
  rw [ofText, ofText, hsame]

theorem SourceLine.ofText_lower (raw : List Char) :
    ofText (lower raw) = { names := (ofText raw).names.map lower
                           code := lower (ofText raw).code } := by
  obtain ⟨front, last, hraw⟩ := exists_pieces_eq_concat ':' (withoutComment raw)
  have hlower : pieces ':' (withoutComment (lower raw)) = front.map lower ++ [lower last] := by
    rw [withoutComment_lower, pieces_lower isCaseless_colon, hraw, List.map_append,
      List.map_singleton]
  rw [ofText_eq hraw, ofText_eq hlower, trim_lower, List.map_map, List.map_map]
  congr 1
  exact List.map_congr_left fun part _ => trim_lower part

/-! ## Blanks -/

/-- Blanks stay in front of the code, or are put into it. -/
theorem code_of_spread (h : Spread raw raw') (hsound : Sound raw) :
    (SourceLine.ofText raw').names = (SourceLine.ofText raw).names ∧
      ((SourceLine.ofText raw').code = (SourceLine.ofText raw).code ∨
        SpreadInside (SourceLine.ofText raw).code (SourceLine.ofText raw').code) := by
  obtain hsame | hspread := withoutComment_spread h
  · rw [SourceLine.ofText, SourceLine.ofText, hsame]
    exact ⟨rfl, .inl rfl⟩
  obtain ⟨front, x, y, back, hx, hy, hxy⟩ := hspread.pieces (by decide : isBlank ':' = false)
  obtain rfl | ⟨back, code, rfl⟩ := List.eq_nil_or_concat back
  · rw [SourceLine.ofText_eq hx, SourceLine.ofText_eq hy]
    exact ⟨rfl, hxy.trim⟩
  · -- The blanks are around a label.
    rw [List.concat_eq_append, ← List.cons_append, ← List.append_assoc] at hx hy
    have hheading : isHeading (trim x) = true := by
      refine hsound.headings _ ?_
      rw [SourceLine.ofText_eq hx]
      simp
    have htrim := hxy.trim_eq (isPlain_of_isHeading hheading)
    rw [SourceLine.ofText_eq hx, SourceLine.ofText_eq hy, List.map_append, List.map_append,
      List.map_cons, List.map_cons, htrim]
    exact ⟨rfl, .inl rfl⟩

/-- Blanks part no token, so the statement stays the same. -/
theorem statementOf?_of_spread (h : Spread raw raw') (hsound : Sound raw) :
    statementOf? raw' = statementOf? raw := by
  obtain ⟨-, hsame | hinside⟩ := code_of_spread h hsound
  · rw [statementOf?, statementOf?, hsame]
  obtain ⟨hne, hne'⟩ := hinside.ne_nil
  obtain ⟨labels, bytes, hencode⟩ := hsound.encodes _ (Statement.ofText?_eq hne)
  obtain ⟨hhead, hoperands⟩ := isPlain_of_ofParts hencode
  obtain ⟨hsame, hrest⟩ := hinside.headAndRest hhead
  rw [statementOf?, statementOf?, Statement.ofText?_eq hne, Statement.ofText?_eq hne', hsame]
  obtain hrest | hrest := hrest
  · rw [hrest]
  · rw [hrest.operandsOf fun operand hoperand => ?_]
    have hplain := hoperands operand hoperand
    rwa [trim_of_mem_operandsOf hoperand] at hplain

end ChipEight.Assembly
