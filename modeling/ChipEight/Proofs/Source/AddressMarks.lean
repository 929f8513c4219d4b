import ChipEight.Proofs.Source.MoreLabels
import ChipEight.Proofs.Text.Phrase
import ChipEight.Source.Listing

/-!
# Addresses in front of lines

Listings write the address of a word in front of its line, and the assembler skips it. What it skips
is a number that starts with a decimal digit. An address from `a00` on starts with a letter, as a
label does, and is taken for one: so it may be the label that the text lacks, or one that the text
defines already. In all other texts it makes no difference either.
-/

namespace ChipEight.Assembly

open Text Listing

/-! ## Marks -/

theorem hex_three {n : Nat} (h : n ≤ 0xFFF) :
    hex 3 n = [digitChar (n / 256), digitChar (n / 16 % 16), digitChar (n % 16)] := by
  have hlow : n / 16 / 16 < 16 := by omega
  rw [hex_succ, hex_succ, hex_one hlow, Nat.div_div_eq_div_mul]
  rfl

/-- The addresses that are skipped are those that start with a decimal digit. -/
theorem isAddressMark_hex {n : Nat} (h : n ≤ 0xFFF) :
    isAddressMark (hex 3 n) = decide (n < 0xA00) := by
  have hfirst : ∀ d ∈ List.range 16, (digitChar d).isDigit = decide (d < 10) := by decide
  have hrest : ∀ d ∈ List.range 16, isHexDigit (digitChar d) = true := by decide
  have hlow : ∀ k, k % 16 ∈ List.range 16 := fun k => List.mem_range.mpr (Nat.mod_lt k (by decide))
  have hhigh : n / 256 ∈ List.range 16 := List.mem_range.mpr (by omega)
  rw [hex_three h, isAddressMark, hfirst _ hhigh, List.all_cons, List.all_cons, hrest _ (hlow _),
    hrest _ (hlow _)]
  simp only [List.all_nil, Bool.and_true, decide_eq_decide]
  omega

/-! ## Marked lines -/

/-- A line with an address in front. -/
def markLine (n : Nat) (raw : List Char) : List Char := addressMark { addresses := true } n ++ raw

variable {n line address : Nat} {labels : Labels} {raw : List Char}
  {rest ls xs ys : List (List Char)}

theorem ofText_markLine (n : Nat) (raw : List Char) :
    SourceLine.ofText (markLine n raw) =
      { names := hex 3 n :: (SourceLine.ofText raw).names
        code := (SourceLine.ofText raw).code } := by
  have htoken := isToken_hex 3 n
  have hline : markLine n raw = hex 3 n ++ ':' :: ' ' :: raw := List.append_assoc _ _ _
  rw [hline, SourceLine.ofText_append_colon (not_mem_of_isToken htoken (by decide))
    (not_mem_of_isToken htoken (by decide)), SourceLine.ofText_cons_of_blank (by decide),
    trim_of_isToken htoken]

/-- An address keeps nothing free and places nothing. -/
theorem layOut_markLine (n line address : Nat) (labels : Labels) (raw : List Char)
    (rest : List (List Char)) :
    layOut line address labels (markLine n raw :: rest) =
      define line address labels (hex 3 n :: (SourceLine.ofText raw).names) >>= fun defined =>
        (layOut (line + 1) (address + lineSize raw) defined rest).map fun later =>
          { later with placed := (placedOn line address raw).toList ++ later.placed } := by
  have hplaced : placedOn line address (markLine n raw) = placedOn line address raw := by
    rw [placedOn, placedOn, statementOf?, statementOf?, ofText_markLine]
  have hsize : lineSize (markLine n raw) = lineSize raw := by
    rw [lineSize, lineSize, statementOf?, statementOf?, ofText_markLine]
  rw [layOut_eq_bind, hplaced, hsize, ofText_markLine]

theorem layOut_markLine_of_isAddressMark (hmark : isAddressMark (hex 3 n) = true) :
    layOut line address labels (markLine n raw :: rest) =
      layOut line address labels (raw :: rest) := by
  rw [layOut_markLine, layOut_eq_bind, define_cons_of_isAddressMark hmark]

/-- An address that is no mark is a label more, unless it is one already. -/
theorem beside_markLine (hmark : isAddressMark (hex 3 n) = false) :
    Beside (hex 3 n)
      ((labels.lookup (hex 3 n)).isSome ∨ ∃ other ∈ raw :: rest, hex 3 n ∈ definedIn other)
      (Layout.Adds (hex 3 n)) (layOut line address labels (raw :: rest))
      (layOut line address labels (markLine n raw :: rest)) := by
  cases hlookup : labels.lookup (hex 3 n) with
  | some a =>
    rw [layOut_markLine, define, if_neg (by simp [hmark]), if_neg (by simp [isName_hex hmark]),
      if_pos (by simp [hlookup])]
    exact .repeats line (.inl rfl)
  | none =>
    rw [layOut_markLine, layOut_eq_bind, define_cons_of_isName hmark (isName_hex hmark) hlookup]
    refine ((define_adds (adds_cons hlookup address) _).mono ?_).bind fun defined more hadds => ?_
    · rintro ⟨hmem, -⟩
      exact .inr ⟨raw, List.mem_cons_self, List.mem_filter.mpr ⟨hmem, by simp [hmark]⟩⟩
    · refine ((layOut_adds hadds).mono ?_).map fun x y hxy => ?_
      · rintro ⟨other, hother, hdefined⟩
        exact .inr ⟨other, List.mem_cons_of_mem raw hother, hdefined⟩
      · exact ⟨hxy.labels, congrArg (_ ++ ·) hxy.placed, hxy.stop⟩

/-- Lines with an address in front of the first. If there is none, the address is a line. -/
def markFirst (n : Nat) (ls : List (List Char)) : List (List Char) :=
  markLine n (ls.headD []) :: ls.tail

theorem layOut_markFirst_of_isAddressMark (hmark : isAddressMark (hex 3 n) = true) :
    layOut line address labels (markFirst n ls) = layOut line address labels ls := by
  cases ls with
  | nil => exact layOut_markLine_of_isAddressMark hmark
  | cons raw rest => exact layOut_markLine_of_isAddressMark hmark

theorem beside_markFirst (hmark : isAddressMark (hex 3 n) = false) :
    Beside (hex 3 n) ((labels.lookup (hex 3 n)).isSome ∨ ∃ raw ∈ ls, hex 3 n ∈ definedIn raw)
      (Layout.Adds (hex 3 n)) (layOut line address labels ls)
      (layOut line address labels (markFirst n ls)) := by
  cases ls with
  | nil =>
    have hline : Beside (hex 3 n) _ _ _ (layOut line address labels (markLine n [] :: [])) :=
      beside_markLine hmark
    refine hline.mono (Or.imp_right ?_)
    rintro ⟨raw, hraw, hdefined⟩
    obtain rfl := List.mem_singleton.mp hraw
    cases hdefined
  | cons raw rest => exact beside_markLine hmark

/-! ## Lines before -/

theorem layOut_append_congr (before : List (List Char))
    (h : ∀ line address labels,
      layOut line address labels xs = layOut line address labels ys) :
    layOut line address labels (before ++ xs) = layOut line address labels (before ++ ys) := by
  induction before generalizing line address labels with
  | nil => exact h line address labels
  | cons raw before ih =>
    rw [List.cons_append, List.cons_append, layOut_eq_bind, layOut_eq_bind]
    simp only [ih]

/-- Lines in front of both texts may define the label too. -/
theorem beside_append {name : List Char} (before : List (List Char))
    (h : ∀ line address labels, Beside name
      ((labels.lookup name).isSome ∨ ∃ other ∈ xs, name ∈ definedIn other) (Layout.Adds name)
      (layOut line address labels xs) (layOut line address labels ys)) :
    Beside name ((labels.lookup name).isSome ∨ ∃ other ∈ before ++ xs, name ∈ definedIn other)
      (Layout.Adds name) (layOut line address labels (before ++ xs))
      (layOut line address labels (before ++ ys)) := by
  induction before generalizing line address labels with
  | nil => exact h line address labels
  | cons raw before ih =>
    rw [List.cons_append, List.cons_append, layOut_eq_bind, layOut_eq_bind]
    cases hdefine : define line address labels (SourceLine.ofText raw).names with
    | error failure => exact .fails failure
    | ok defined =>
      simp only [bind, Except.bind]
      refine (Beside.mono ih ?_).map fun x y hxy => ?_
      · rintro (hdefined | ⟨other, hother, hdefined⟩)
        · obtain ⟨a, ha⟩ := Option.isSome_iff_exists.mp hdefined
          obtain hlabels | ⟨hmem, hmark, -⟩ := lookup_of_define hdefine ha
          · exact .inl (Option.isSome_iff_exists.mpr ⟨a, hlabels⟩)
          · exact .inr ⟨raw, List.mem_cons_self, List.mem_filter.mpr ⟨hmem, by simp [hmark]⟩⟩
        · exact .inr ⟨other, List.mem_cons_of_mem raw hother, hdefined⟩
      · exact ⟨hxy.labels, congrArg (_ ++ ·) hxy.placed, hxy.stop⟩

/-! ## Marked texts -/

/-- What a label more, in front of one of the lines `ls`, does to a result. -/
structure OneLabelMore (name : List Char) (ls : List (List Char))
    (plain marked : Except Failure Assembled) : Prop where
  /-- Nothing, unless the text lacks this label, or has it twice then. -/
  inert : ¬Lacks name plain → ¬Repeats name marked → marked = plain
  /-- A text that lacks the label comes to another result. -/
  lacking : Lacks name plain → marked ≠ plain
  /-- A text that does not define the label does not have it twice. -/
  fresh : (∀ raw ∈ ls, name ∉ definedIn raw) → (marked = plain ↔ ¬Lacks name plain)
  /-- A text that assembles and defines the label does. -/
  taken : ∀ assembled, plain = .ok assembled → (∃ raw ∈ ls, name ∈ definedIn raw) →
    Repeats name marked

theorem oneLabelMore_of_beside {name : List Char} {ls : List (List Char)}
    {y : Except Failure Layout}
    (h : Beside name (∃ raw ∈ ls, name ∈ definedIn raw) (Layout.Adds name)
      (layOut 1 programStart [] ls) y) :
    OneLabelMore name ls (layOut 1 programStart [] ls >>= Layout.encode) (y >>= Layout.encode) := by
  have hlacking : Lacks name (layOut 1 programStart [] ls >>= Layout.encode) →
      y >>= Layout.encode ≠ layOut 1 programStart [] ls >>= Layout.encode := by
    intro hplain hsame
    rw [← hsame] at hplain
    generalize hlayout : layOut 1 programStart [] ls = x at h
    cases h with
    | fails failure =>
      obtain ⟨line, hline⟩ := hplain
      cases hline
      exact not_lacks_layOut ls ⟨line, hlayout⟩
    | repeats line =>
      obtain ⟨line, hline⟩ := hplain
      cases hline
    | succeeds hadds =>
      simp only [bind, Except.bind] at hplain
      exact not_lacks_encode hadds.labels.present hplain
  refine ⟨?_, hlacking, ?_, ?_⟩
  · intro hlacks hrepeats
    obtain hsame | hplain | ⟨-, hmarked⟩ := h.result
    · exact hsame
    · exact absurd hplain hlacks
    · exact absurd hmarked hrepeats
  · intro hfresh
    refine ⟨fun hsame hplain => hlacking hplain hsame, fun hlacks => ?_⟩
    obtain hsame | hplain | ⟨⟨raw, hraw, hdefined⟩, -⟩ := h.result
    · exact hsame
    · exact absurd hplain hlacks
    · exact absurd hdefined (hfresh raw hraw)
  · rintro assembled hplain ⟨raw, hraw, hdefined⟩
    generalize hlayout : layOut 1 programStart [] ls = x at h hplain
    cases h with
    | fails failure => cases hplain
    | repeats line => exact ⟨line, rfl⟩
    | succeeds hadds =>
      -- The first text defines the label, so the second one would have it twice.
      obtain ⟨before, after, rfl⟩ := List.append_of_mem hraw
      have hlookup := (lookup_of_mem_definedIn hlayout hdefined).2
      rw [hadds.labels.absent] at hlookup
      cases hlookup

/-- The text with an address in front of the line that starts behind `before`. -/
def markText (n : Nat) (before after : List Char) : List Char :=
  before ++ (addressMark { addresses := true } n ++ after)

theorem lines_markText (n : Nat) {before : List Char} (after : List Char)
    (hstart : ∀ c ∈ before.getLast?, c = '\n') :
    lines (markText n before after) = lines before ++ markFirst n (lines after) := by
  have hchars : ∀ c, isPlain c = false → c ≠ ':' → c ≠ ' ' →
      c ∉ addressMark { addresses := true } n := by
    intro c hc hcolon hblank hm
    obtain hm | hm := List.mem_append.mp hm
    · exact not_mem_of_isToken (isToken_hex 3 n) hc hm
    · simp [hcolon, hblank] at hm
  have hne : addressMark { addresses := true } n ≠ [] := by simp [addressMark]
  rw [markText, lines_append_of_getLast? _ hstart, lines_append_of_not_mem after hne
    (hchars _ (by decide) (by decide) (by decide)) (hchars _ (by decide) (by decide) (by decide))]
  rfl

/-- An address in front of a line makes no difference if it starts with a decimal digit. If it
starts with a letter, it is a label, and makes no difference unless the text lacks this label or
defines it already. -/
theorem address_inert {before after : List Char} (hstart : ∀ c ∈ before.getLast?, c = '\n')
    {n : Nat} (hn : n ≤ 0xFFF) :
    let plain := ofCharacters (before ++ after)
    let marked := ofCharacters (markText n before after)
    (n < 0xA00 → marked = plain) ∧
      (0xA00 ≤ n → OneLabelMore (hex 3 n) (lines (before ++ after)) plain marked) := by
  intro plain marked
  have hplain : plain =
      layOut 1 programStart [] (lines before ++ lines after) >>= Layout.encode := by
    rw [← lines_append_of_getLast? after hstart]
    exact ofCharacters_eq_bind _
  have hmarked : marked =
      layOut 1 programStart [] (lines before ++ markFirst n (lines after)) >>= Layout.encode := by
    rw [← lines_markText n after hstart]
    exact ofCharacters_eq_bind _
  have hmark := isAddressMark_hex hn
  rw [hplain, hmarked, lines_append_of_getLast? after hstart]
  constructor
  · intro hlow
    rw [decide_eq_true hlow] at hmark
    rw [layOut_append_congr _ fun _ _ _ => layOut_markFirst_of_isAddressMark hmark]
  · intro hhigh
    rw [decide_eq_false (Nat.not_lt.mpr hhigh)] at hmark
    refine oneLabelMore_of_beside
      (Beside.mono (beside_append (lines before) fun _ _ _ => beside_markFirst hmark) ?_)
    rintro (hlabels | hdefined)
    · cases hlabels
    · exact hdefined

/-- An address of either kind in front of the second line of `JP e`, `e:CLS`. -/
theorem address_inert_jump :
    let before := ['J', 'P', ' ', 'e', '\n']
    let after := ['e', ':', 'C', 'L', 'S']
    ∃ assembled, ofCharacters (before ++ after) = .ok assembled ∧
      assembled.program = [0x12, 0x02, 0x00, 0xE0] ∧
      ofCharacters (markText 0x202 before after) = .ok assembled ∧
      ofCharacters (markText 0xABC before after) = .ok assembled := by
  intro before after
  have hstart : ∀ c ∈ before.getLast?, c = '\n' := fun c hc => (Option.some.inj hc).symm
  have hlines : lines (before ++ after) = [['J', 'P', ' ', 'e'], ['e', ':', 'C', 'L', 'S']] := rfl
  have hprogram : (ofCharacters (before ++ after)).map (·.program) =
      .ok [0x12, 0x02, 0x00, 0xE0] := rfl
  have hdigits : ofCharacters (markText 0x202 before after) = ofCharacters (before ++ after) :=
    (address_inert hstart (by decide)).1 (by decide)
  have hletters : OneLabelMore (hex 3 0xABC) (lines (before ++ after))
      (ofCharacters (before ++ after)) (ofCharacters (markText 0xABC before after)) :=
    (address_inert hstart (by decide)).2 (by decide)
  cases hassembled : ofCharacters (before ++ after) with
  | error failure =>
    rw [hassembled] at hprogram
    cases hprogram
  | ok assembled =>
    rw [hassembled] at hprogram hdigits hletters
    have hfresh : ∀ raw ∈ lines (before ++ after), hex 3 0xABC ∉ definedIn raw := by
      rw [hlines, hex_three (by decide)]
      decide
    refine ⟨assembled, rfl, Except.ok.inj hprogram, hdigits, (hletters.fresh hfresh).mpr ?_⟩
    rintro ⟨line, hline⟩
    cases hline

/-- An address that starts with a letter is a label: it may be the one that a jump lacks, or one
that the text defines already. -/
theorem address_taken_for_label :
    let clear := ['C', 'L', 'S', '\n']
    let jump := clear ++ ['J', 'P', ' ', 'a', 'b', 'c', '\n']
    let twice := ['a', 'b', 'c', ':', ' '] ++ clear
    markText 0xABC [] jump = ['a', 'b', 'c', ':', ' '] ++ jump ∧
      ofCharacters jump = .error (.source 2 (.undefinedLabel "abc")) ∧
      (ofCharacters (markText 0xABC [] jump)).map (·.program) = .ok [0x00, 0xE0, 0x12, 0x00] ∧
    markText 0xABC twice clear = twice ++ twice ∧
      (ofCharacters (twice ++ clear)).map (·.program) = .ok [0x00, 0xE0, 0x00, 0xE0] ∧
      ofCharacters (markText 0xABC twice clear) = .error (.source 2 (.duplicateLabel "abc")) := by
  intro clear jump twice
  have hmark : addressMark { addresses := true } 0xABC = ['a', 'b', 'c', ':', ' '] := by
    have hhex : hex 3 0xABC = ['a', 'b', 'c'] := hex_three (by decide)
    rw [addressMark, hhex]
    rfl
  rw [markText, markText, hmark]
  exact ⟨rfl, rfl, rfl, rfl, rfl, rfl⟩

end ChipEight.Assembly
