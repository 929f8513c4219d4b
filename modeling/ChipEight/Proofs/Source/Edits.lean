import Mathlib.Logic.Relation
import ChipEight.Proofs.Instruction.AnyCase
import ChipEight.Proofs.Source.LineParts

/-!
# The layout of a source does not matter

Comments, blank lines, blanks around labels, operands and commas, labels on lines of their own, and
the case of mnemonics, directives, registers and literals: whoever edits these in a source that
assembles gets the same program (`program_of_edits`). Each edit leaves lines that restate those from
before (`Edit.restates`), and so do many edits.
-/

namespace ChipEight.Assembly

open Text

variable {raw raw' : List Char} {ls ls' before after : List (List Char)} {program : List UInt8}

/-! ## Edits -/

/-- The operands of a statement. -/
def Statement.operands : Statement → List (List Char)
  | .instruction _ operands | .bytes operands | .words operands => operands

/-- The operands on a line. -/
def operandsOn (raw : List Char) : List (List Char) :=
  ((statementOf? raw).map Statement.operands).getD []

/-- The operand at a place on a line is matched as a register or a literal. -/
def IgnoresCaseAt (raw : List Char) (i : Nat) : Prop :=
  ∃ mnemonic operands, statementOf? raw = some (.instruction mnemonic operands) ∧
    ∃ f ∈ formsTaking [] mnemonic operands, ∃ slot, f.slots[i]? = some slot ∧
      slot.ignoresCase = true

/-- An edit of a line. -/
inductive LineEdit : List Char → List Char → Prop
  /-- A comment is appended. -/
  | comment (raw text : List Char) : LineEdit raw (raw ++ ';' :: text)
  /-- Blanks are put in, but not between two plain characters. So they go before and after a label,
  an operand and a comma, before a mnemonic, and behind a mnemonic that a blank follows. -/
  | blanks {raw raw' : List Char} (spread : Spread raw raw') : LineEdit raw raw'
  /-- Letters change their case, though not those of labels, nor those of operands that are matched
  as something else than registers and literals. -/
  | letters {raw raw' : List Char} (same : sameLetters raw raw' = true)
      (names : (SourceLine.ofText raw').names = (SourceLine.ofText raw).names)
      (operands : ∀ i, (operandsOn raw')[i]? = (operandsOn raw)[i]? ∨ IgnoresCaseAt raw i) :
      LineEdit raw raw'

/-- An edit of the lines of a source. -/
inductive Edit : List (List Char) → List (List Char) → Prop
  /-- A line is edited. -/
  | line {raw raw' : List Char} (before after : List (List Char)) (edit : LineEdit raw raw') :
      Edit (before ++ raw :: after) (before ++ raw' :: after)
  /-- A line is put in that is blank but for a comment. -/
  | insert {raw : List Char} (before after : List (List Char))
      (blank : ∀ c ∈ withoutComment raw, isBlank c = true) :
      Edit (before ++ after) (before ++ raw :: after)
  /-- A label is moved to a line of its own. In front of it stand other labels at most. -/
  | label {front name : List Char} (before after : List (List Char)) (rest : List Char)
      (hfront : ';' ∉ front ∧ (SourceLine.ofText front).code = [])
      (hname : ':' ∉ name ∧ ';' ∉ name) :
      Edit (before ++ (front ++ (name ++ ':' :: rest)) :: after)
        (before ++ (name ++ [':']) :: (front ++ rest) :: after)

/-- The lines of a source text are edited. How they end may change as well. -/
def IsEdit (source variant : List Char) : Prop := Edit (lines source) (lines variant)

/-! ## Letters -/

theorem Statement.operands_ofParts (head : List Char) (operands : List (List Char)) :
    (Statement.ofParts head operands).operands = operands := by
  rw [Statement.ofParts]
  split_ifs <;> rfl

/-- A statement stays what it is when letters change their case in its first word, and in operands
that it reads as registers or literals. -/
theorem replaces_ofParts {head head' : List Char} {operands operands' : List (List Char)}
    (hhead : lower head' = lower head) (hlower : operands'.map lower = operands.map lower)
    (h : ∀ i : Nat, operands'[i]? = operands[i]? ∨ ∃ mnemonic own,
      Statement.ofParts head operands = .instruction mnemonic own ∧
        ∃ f ∈ formsTaking [] mnemonic own, ∃ slot, f.slots[i]? = some slot ∧
          slot.ignoresCase = true) :
    Replaces (.ofParts head operands) (.ofParts head' operands') := by
  have hdata : (∀ mnemonic own, Statement.ofParts head operands ≠ .instruction mnemonic own) →
      operands' = operands := by
    refine fun hno => List.ext_getElem? fun i => (h i).resolve_right ?_
    rintro ⟨mnemonic, own, hown, -⟩
    exact hno mnemonic own hown
  rw [Statement.ofParts] at h hdata
  rw [Statement.ofParts, Statement.ofParts, hhead]
  split_ifs at h hdata ⊢
  · rw [hdata (by rintro _ _ ⟨⟩)]
    exact .refl _
  · rw [hdata (by rintro _ _ ⟨⟩)]
    exact .refl _
  · refine ⟨rfl, fun {labels bytes} hencode => ?_⟩
    rw [Statement.encode] at hencode ⊢
    cases hword : encode labels head operands with
    | error flaw =>
      rw [hword] at hencode
      cases hencode
    | ok w =>
      rw [hword] at hencode
      have hslots : ∀ i : Nat, operands'[i]? = operands[i]? ∨
          ∃ f ∈ formsTaking [] head operands, ∃ slot, f.slots[i]? = some slot ∧
            slot.ignoresCase = true := by
        refine fun i => (h i).imp_right ?_
        rintro ⟨mnemonic, own, hsame, hforms⟩
        cases hsame
        exact hforms
      rw [encode_of_sameLetters hword hhead hlower hslots]
      exact hencode

theorem operandsOf_lower (s : List Char) : operandsOf (lower s) = (operandsOf s).map lower := by
  rw [operandsOf, operandsOf, trim_lower, pieces_lower isCaseless_comma, List.map_map]
  have hempty : (lower (trim s)).isEmpty = (trim s).isEmpty := List.isEmpty_map
  rw [hempty]
  split_ifs
  · rfl
  · rw [List.map_map]
    exact List.map_congr_left fun part _ => trim_lower part

theorem replaces_of_sameLetters (same : sameLetters raw raw' = true)
    (operands : ∀ i, (operandsOn raw')[i]? = (operandsOn raw)[i]? ∨ IgnoresCaseAt raw i) :
    Option.Rel Replaces (statementOf? raw) (statementOf? raw') := by
  have hcode : lower (SourceLine.ofText raw').code = lower (SourceLine.ofText raw).code := by
    have hline := SourceLine.ofText_lower raw'
    rw [← sameLetters_iff.mp same, SourceLine.ofText_lower] at hline
    exact (congrArg SourceLine.code hline).symm
  by_cases hne : (SourceLine.ofText raw).code = []
  · have hne' : (SourceLine.ofText raw').code = [] := by
      rw [hne] at hcode
      exact List.map_eq_nil_iff.mp hcode
    rw [statementOf?, statementOf?, hne, hne']
    exact .none
  · have hne' : (SourceLine.ofText raw').code ≠ [] := fun he => by
      rw [he] at hcode
      exact hne (List.map_eq_nil_iff.mp hcode.symm)
    have hstatement := Statement.ofText?_eq hne
    have hstatement' := Statement.ofText?_eq hne'
    have hparts := headAndRest_lower (SourceLine.ofText raw').code
    rw [hcode, headAndRest_lower] at hparts
    obtain ⟨hhead, hrest⟩ := Prod.mk.inj hparts
    have hlower := operandsOf_lower (headAndRest (SourceLine.ofText raw').code).2
    rw [← hrest, operandsOf_lower] at hlower
    simp only [operandsOn, IgnoresCaseAt, statementOf?, hstatement, hstatement', Option.map_some,
      Option.getD_some, Statement.operands_ofParts, Option.some.injEq] at operands
    rw [statementOf?, statementOf?, hstatement, hstatement']
    exact .some (replaces_ofParts hhead.symm hlower.symm operands)

/-! ## Lines -/

/-- The same labels, and a statement that replaces the one from before. -/
theorem restates_line (hsound : Sound raw)
    (hnames : (SourceLine.ofText raw').names = (SourceLine.ofText raw).names)
    (hstatement : Option.Rel Replaces (statementOf? raw) (statementOf? raw')) :
    Restates [raw] [raw'] where
  headings := List.forall_mem_singleton.mpr (hnames ▸ hsound.headings)
  definitions := fun address => by
    show (namesAt address _ ++ []).Perm (namesAt address (SourceLine.ofText raw').names ++ [])
    rw [hnames]
  statements :=
    List.rel_filterMap (R := fun x y => Option.Rel Replaces (statementOf? x) (statementOf? y))
      (fun _ _ h => h) (.cons hstatement .nil)

theorem LineEdit.restates (h : LineEdit raw raw') (hsound : Sound raw) :
    Restates [raw] [raw'] := by
  have hrefl : Option.Rel Replaces (statementOf? raw) (statementOf? raw) := by
    cases statementOf? raw with
    | none => exact .none
    | some statement => exact .some (.refl statement)
  cases h with
  | comment text =>
    have hline := SourceLine.ofText_append_comment raw text
    refine restates_line hsound (congrArg SourceLine.names hline) ?_
    rw [statementOf?, statementOf?, hline]
    exact hrefl
  | blanks spread =>
    refine restates_line hsound (code_of_spread spread hsound).1 ?_
    rw [statementOf?_of_spread spread hsound]
    exact hrefl
  | letters same names operands =>
    exact restates_line hsound names (replaces_of_sameLetters same operands)

theorem restates_insert (h : ∀ c ∈ withoutComment raw, isBlank c = true) : Restates [] [raw] := by
  have hline := SourceLine.ofText_of_blank h
  refine ⟨List.forall_mem_singleton.mpr ?_, fun address => ?_, ?_⟩
  · rw [hline]
    exact fun _ hname => absurd hname List.not_mem_nil
  · rw [definitions, definitions, hline]
    rfl
  · rw [List.filterMap_cons, statementOf?, hline]
    exact .nil

/-- A label that is moved comes before the labels in front of it, at the same address. -/
theorem restates_label {front name rest : List Char}
    (hfront : ';' ∉ front ∧ (SourceLine.ofText front).code = []) (hname : ':' ∉ name ∧ ';' ∉ name)
    (hsound : Sound (front ++ (name ++ ':' :: rest))) :
    Restates [front ++ (name ++ ':' :: rest)] [name ++ [':'], front ++ rest] := by
  have hboth := SourceLine.ofText_append hfront.1 hfront.2 (name ++ ':' :: rest)
  rw [SourceLine.ofText_append_colon hname.1 hname.2] at hboth
  have hown : SourceLine.ofText (name ++ [':']) = { names := [trim name], code := [] } :=
    SourceLine.ofText_append_colon hname.1 hname.2 []
  have hrest := SourceLine.ofText_append hfront.1 hfront.2 rest
  have hnone : statementOf? (name ++ [':']) = none := by rw [statementOf?, hown]; rfl
  have hstatement :
      statementOf? (front ++ rest) = statementOf? (front ++ (name ++ ':' :: rest)) := by
    rw [statementOf?, statementOf?, hboth, hrest]
  have hheadings := hsound.headings
  rw [hboth] at hheadings
  obtain ⟨hfronts, hothers⟩ := List.forall_mem_append.mp hheadings
  obtain ⟨hmoved, hrests⟩ := List.forall_mem_cons.mp hothers
  refine ⟨List.forall_mem_cons.mpr ⟨?_, List.forall_mem_singleton.mpr ?_⟩, fun address => ?_, ?_⟩
  · rw [hown]
    exact List.forall_mem_singleton.mpr hmoved
  · rw [hrest]
    exact List.forall_mem_append.mpr ⟨hfronts, hrests⟩
  · have hsize : lineSize (name ++ [':']) = 0 := by rw [lineSize, hnone]; rfl
    simp only [definitions, hboth, hown, hrest, hsize, Nat.add_zero, List.append_nil]
    rw [← namesAt_append]
    exact namesAt_perm List.perm_middle
  · rw [List.filterMap_cons_none hnone, List.filterMap_cons, List.filterMap_cons, hstatement]
    exact List.forall₂_same.mpr fun statement _ => .refl statement

theorem Edit.restates (h : Edit ls ls') (hsound : ∀ raw ∈ ls, Sound raw) : Restates ls ls' := by
  cases h with
  | line before after edit =>
    obtain ⟨hbefore, hrest⟩ := List.forall_mem_append.mp hsound
    obtain ⟨hraw, hafter⟩ := List.forall_mem_cons.mp hrest
    exact (edit.restates hraw).within hbefore hafter
  | insert before after blank =>
    obtain ⟨hbefore, hafter⟩ := List.forall_mem_append.mp hsound
    exact (restates_insert blank).within hbefore hafter
  | label before after rest hfront hname =>
    obtain ⟨hbefore, hrest⟩ := List.forall_mem_append.mp hsound
    obtain ⟨hraw, hafter⟩ := List.forall_mem_cons.mp hrest
    exact (restates_label hfront hname hraw).within hbefore hafter

/-! ## Sources -/

/-- A source assembles to a program when its lines do. -/
theorem exists_ofCharacters_iff (source : List Char) :
    (∃ assembled, ofCharacters source = .ok assembled ∧ assembled.program = program) ↔
      Accepted (lines source) program := by
  constructor
  · rintro ⟨assembled, h, rfl⟩
    obtain ⟨layout, hlayout, hsize, hencode⟩ := passes_of_ofCharacters h
    exact ⟨layout, hlayout, hsize, encodes_of_encodeAll hencode⟩
  · rintro ⟨layout, hlayout, hsize, hencodes⟩
    rw [ofCharacters_of_layOut hlayout hsize]
    exact exists_encodeAll hencodes programStart

/-- Whatever is edited in the layout of a source that assembles, and however often: what comes out
assembles to the same program. -/
theorem program_of_edits {source variant : List Char} {assembled : Assembled}
    (h : ofCharacters source = .ok assembled)
    (hedits : Relation.ReflTransGen IsEdit source variant) :
    ∃ other, ofCharacters variant = .ok other ∧ other.program = assembled.program := by
  rw [exists_ofCharacters_iff]
  induction hedits with
  | refl => exact (exists_ofCharacters_iff source).mp ⟨assembled, h, rfl⟩
  | tail _ hedit ih => exact ih.restate (Edit.restates hedit ih.sound)

/-- Five edits of a loop. Its label gets a line of its own, letters and blanks change on the line
behind, and a comment and a line with nothing but a comment are added: `a:LD V3,1`, `JP a` becomes
`a:`, `ld v3, 1;x`, a tab and `;`, `JP a`. -/
theorem program_of_edits_loop :
    let text := List.flatMap (· ++ ['\n'])
    let last := [['J', 'P', ' ', 'a']]
    let source := text (['a', ':', 'L', 'D', ' ', 'V', '3', ',', '1'] :: last)
    let variant := text (['a', ':'] :: ['l', 'd', ' ', 'v', '3', ',', ' ', '1', ';', 'x'] ::
      ['\t', ';'] :: last)
    ∃ assembled other, ofCharacters source = .ok assembled ∧ ofCharacters variant = .ok other ∧
      assembled.program = [0x63, 0x01, 0x12, 0x00] ∧ other.program = assembled.program := by
  intro text last source variant
  have isEdit : ∀ {ls ls' : List (List Char)}, Edit ls ls' →
      (∀ l ∈ ls ++ ls', '\n' ∉ l ∧ '\r' ∉ l) → IsEdit (text ls) (text ls') := by
    intro ls ls' h hends
    obtain ⟨hls, hls'⟩ := List.forall_mem_append.mp hends
    rwa [IsEdit, lines_flatMap hls, lines_flatMap hls']
  let label := ['a', ':']
  let capital := ['L', 'D', ' ', 'V', '3', ',', '1']
  let small := ['l', 'd', ' ', 'v', '3', ',', '1']
  let spread := ['l', 'd', ' ', 'v', '3', ',', ' ', '1']
  have hlabel : IsEdit source (text (label :: capital :: last)) :=
    isEdit (@Edit.label [] ['a'] [] last capital (by decide) (by decide)) (by decide)
  have hcapital : operandsOn capital = [['V', '3'], ['1']] := rfl
  have hsmall : operandsOn small = [['v', '3'], ['1']] := rfl
  have hregister : IgnoresCaseAt capital 0 := by
    let form : Form := ⟨.setByte, "LD", [.registerX, .byte], ⟨6, .free, .free, .free⟩, .chip8⟩
    have hform : form ∈ formsTaking [] ['L', 'D'] [['V', '3'], ['1']] := by decide +kernel
    exact ⟨['L', 'D'], [['V', '3'], ['1']], rfl, form, hform, .registerX, rfl, rfl⟩
  have hletters : LineEdit capital small := by
    refine .letters (by decide) rfl fun i => ?_
    cases i with
    | zero => exact .inr hregister
    | succ i => exact .inl (by rw [hcapital, hsmall]; rfl)
  have hblanks : LineEdit small spread :=
    .blanks (@Spread.intro ['l', 'd', ' ', 'v', '3', ','] ['1'] [' '] (.inl (by rintro c ⟨⟩; rfl))
      (List.all_eq_true.mp rfl))
  have hnoted : Edit (label :: spread :: last) (label :: (spread ++ [';', 'x']) :: last) :=
    .line [label] last (.comment spread ['x'])
  have hinsert : IsEdit (text (label :: (spread ++ [';', 'x']) :: last)) variant :=
    isEdit (@Edit.insert ['\t', ';'] [label, spread ++ [';', 'x']] last
      (List.all_eq_true.mp rfl)) (by decide)
  have hedits : Relation.ReflTransGen IsEdit source variant :=
    ((((Relation.ReflTransGen.single hlabel).tail
      (isEdit (.line [label] last hletters) (by decide))).tail
      (isEdit (.line [label] last hblanks) (by decide))).tail
      (isEdit hnoted (by decide))).tail hinsert
  have hsource : (ofCharacters source).toOption.map (·.program) =
      some [0x63, 0x01, 0x12, 0x00] := rfl
  cases hassembled : ofCharacters source with
  | error failure =>
    rw [hassembled] at hsource
    cases hsource
  | ok assembled =>
    rw [hassembled] at hsource
    obtain ⟨other, hother, hprogram⟩ := program_of_edits hassembled hedits
    exact ⟨assembled, other, rfl, hother, Option.some.inj hsource, hprogram⟩

end ChipEight.Assembly
