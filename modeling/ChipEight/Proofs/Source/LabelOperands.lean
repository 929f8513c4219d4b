import ChipEight.Proofs.Instruction.Apart
import ChipEight.Proofs.Source.Emission
import ChipEight.Proofs.Text.Cuts

/-!
# Labels as operands

Four instructions take an address. Where its text is the name of a label, the low twelve bits of the
word are the address of the label, wherever the label is defined (`word_of_label`).

Two things limit this. A label behind a program that fills memory has the address 4096, and of this
twelve bits keep nothing. And `x` is a mark of hexadecimal numbers, so a name such as `xab` is a
number before it is a label.
-/

namespace ChipEight.Assembly

open Text

/-! ## Address operands -/

/-- The operand in the address slot at the end, behind fixed words that the operands before it
spell. -/
def addressIn? : List Slot → List (List Char) → Option (List Char)
  | [.address], [s] => some s
  | .literal text :: slots, s :: rest =>
    if sameLetters text.toList s then addressIn? slots rest else none
  | _, _ => none

/-- The address operand of a statement. -/
def Statement.addressOperand? : Statement → Option (List Char)
  | .instruction mnemonic operands =>
    (formsOf mnemonic).findSome? fun f => addressIn? f.slots operands
  | .bytes _ | .words _ => none

/-- The instructions with an address. -/
example : (Form.table.filter (·.hasAddress)).map (·.operation) =
    [.jump, .call, .setIndex, .jumpOffset] := by decide

theorem mem_of_addressIn? {name : List Char} : ∀ {slots : List Slot} {operands : List (List Char)},
    addressIn? slots operands = some name → .address ∈ slots
  | [.address], [_], _ => List.mem_singleton.mpr rfl
  | .literal text :: slots, s :: rest, h => by
    rw [addressIn?] at h
    split at h
    · exact List.mem_cons_of_mem _ (mem_of_addressIn? h)
    · cases h

/-- The fixed words are worth nothing, so the address is all that the operands are worth. -/
theorem readSlots_of_addressIn? {labels : Labels} {name : List Char} {value : Nat}
    (hvalue : address? labels name = some (.ok value)) :
    ∀ {slots : List Slot} {operands : List (List Char)}, addressIn? slots operands = some name →
      readSlots labels slots operands = some (.ok value)
  | [.address], [s], h => by
    cases h
    simp only [readSlots, readSlot, hvalue, slotWeight]
    rw [Nat.one_mul, Nat.add_zero]
  | .literal text :: slots, s :: rest, h => by
    rw [addressIn?] at h
    split at h
    · next hsame =>
      simp only [readSlots, readSlot, hsame, if_true, readSlots_of_addressIn? hvalue h]
      rw [Nat.mul_zero, Nat.zero_add]
    · cases h

/-- The word of a statement with an address is the address in its low twelve bits. -/
theorem encode_of_addressOperand? {labels : Labels} {statement : Statement} {name : List Char}
    {value : Nat} (hoperand : statement.addressOperand? = some name)
    (hvalue : address? labels name = some (.ok value)) (hlt : value < 4096) :
    ∃ w : UInt16, statement.encode labels = .ok (splitWord w) ∧ w.toNat % 4096 = value := by
  obtain ⟨mnemonic, operands⟩ | _ | _ := statement
  case bytes | words => cases hoperand
  obtain ⟨f, hf, hslots⟩ := List.exists_of_findSome?_eq_some hoperand
  obtain ⟨htable, hmnemonic⟩ := List.mem_filter.mp hf
  have hword : encodeForm labels operands f =
      some (.ok (UInt16.ofNat (f.shape.pattern.toNat + value))) := by
    rw [encodeForm, readSlots_of_addressIn? hvalue hslots]
    rfl
  refine ⟨UInt16.ofNat (f.shape.pattern.toNat + value), ?_, ?_⟩
  · rw [Statement.encode, encode_of_encodeForm htable hmnemonic hword]
    rfl
  -- Where an address goes, the pattern of the instruction is zero.
  · have hpattern : ∀ g ∈ Form.table, .address ∈ g.slots →
        g.shape.pattern.toNat % 4096 = 0 := by decide
    have hzero := hpattern f htable (mem_of_addressIn? hslots)
    rw [UInt16.toNat_ofNat']
    omega

/-! ## Names and numbers -/

/-- A name that is a number where an address is read: `x` and the digits of an address. -/
def IsMarkedAddress (name : List Char) : Prop :=
  ∃ digits n, name = 'x' :: digits ∧ digitsValue? 16 digits = some n ∧ n ≤ 0xFFF

theorem toNat_of_isNameChar {c : Char} (h : isNameChar c = true) :
    48 ≤ c.toNat ∧ c.toNat ≤ 57 ∨ 65 ≤ c.toNat ∧ c.toNat ≤ 122 := by
  unfold isNameChar Char.isAlphanum Char.isAlpha Char.isUpper Char.isLower Char.isDigit at h
  simp only [Bool.or_eq_true, Bool.and_eq_true, decide_eq_true_eq, beq_iff_eq, ge_iff_le,
    UInt32.le_iff_toNat_le] at h
  rcases h with ((⟨hfrom, hto⟩ | ⟨hfrom, hto⟩) | ⟨hfrom, hto⟩) | rfl
  · exact .inr ⟨hfrom, Nat.le_trans hto (by decide)⟩
  · exact .inr ⟨Nat.le_trans (by decide) hfrom, hto⟩
  · exact .inl ⟨hfrom, hto⟩
  · exact .inr (by decide)

theorem isBlank_of_isNameChar {c : Char} (h : isNameChar c = true) : isBlank c = false := by
  have hrange := toNat_of_isNameChar h
  simp only [isBlank, blankRanges, List.any_cons, List.any_nil, Bool.or_eq_false_iff,
    Bool.and_eq_false_iff, decide_eq_false_iff_not, and_true]
  omega

theorem ne_plus_of_isNameChar {c : Char} (h : isNameChar c = true) : c ≠ '+' := by
  rintro rfl
  exact absurd h (by decide)

/-- Of the characters at the start of a name only `x` starts a number. -/
theorem startsNumber_of_isLetter {c : Char} (h : (isLetter c || c == '_') = true) (hx : c ≠ 'x') :
    startsNumber c = false := by
  have hdigit : digitIn 10 c = none := by
    have hrange : 65 ≤ c.toNat := by
      unfold isLetter Char.isAlpha Char.isUpper Char.isLower at h
      simp only [Bool.or_eq_true, Bool.and_eq_true, decide_eq_true_eq, beq_iff_eq, ge_iff_le,
        UInt32.le_iff_toNat_le] at h
      rcases h with (⟨hfrom, -⟩ | ⟨hfrom, -⟩) | rfl
      · exact hfrom
      · exact Nat.le_trans (by decide) hfrom
      · decide
    rw [digitIn, Option.filter_eq_none_iff]
    intro d hd
    simp only [digitValue, Bool.and_eq_true, decide_eq_true_eq] at hd
    rw [if_neg (by omega)] at hd
    split at hd
    · cases hd
      simp
    · split at hd
      · cases hd
        simp
      · cases hd
  have hmark : ∀ m ∈ ['+', '$', '#'], c ≠ m := by
    intro m hm heq
    subst heq
    revert h
    simp only [List.mem_cons, List.not_mem_nil, or_false] at hm
    rcases hm with rfl | rfl | rfl <;> decide
  simp [startsNumber, hdigit, hmark, hx]

theorem isNameChar_of_isName {c : Char} {rest : List Char} (h : isName (c :: rest) = true) :
    (isLetter c || c == '_') = true ∧ ∀ d ∈ c :: rest, isNameChar d = true := by
  obtain ⟨hfirst, hrest⟩ := Bool.and_eq_true_iff.mp h
  have hname : isNameChar c = true := by
    simp only [isNameChar, Char.isAlphanum, Bool.or_eq_true]
    exact ((Bool.or_eq_true _ _).mp hfirst).imp_left .inl
  exact ⟨hfirst, List.forall_mem_cons.mpr ⟨hname, List.all_eq_true.mp hrest⟩⟩

/-- Other names are not read as numbers. -/
theorem numberUpTo?_of_isName {name : List Char} (h : isName name = true)
    (hmarked : ¬IsMarkedAddress name) : numberUpTo? 0xFFF name = none := by
  cases name with
  | nil => cases h
  | cons c rest =>
    obtain ⟨hfirst, hchars⟩ := isNameChar_of_isName h
    have hblank := isBlank_of_isNameChar (hchars c List.mem_cons_self)
    by_cases hx : c = 'x'
    · subst hx
      have htrim : trim ('x' :: rest) = 'x' :: rest :=
        trim_eq_self fun d hd => isBlank_of_isNameChar (hchars d hd)
      have hmark : afterHexMark? ('x' :: rest) = some rest := by
        simp [afterHexMark?, hexMarks, after?]
      have hplus : withoutPlus rest = rest := withoutPlus_eq_self fun d hd =>
        ne_plus_of_isNameChar (hchars d (List.mem_cons_of_mem _ (List.mem_of_mem_head? hd)))
      rw [numberUpTo?, number?, htrim]
      simp only [hmark, unsigned?, hplus]
      cases hvalue : digitsValue? 16 rest with
      | none => rfl
      | some n =>
        have hlarge : 0xFFF < n :=
          Nat.lt_of_not_le fun hle => hmarked ⟨rest, n, rfl, hvalue, hle⟩
        rw [Option.filter_filter]
        simp [hlarge]
    · have hnumber := number?_cons_eq_none hblank (startsNumber_of_isLetter hfirst hx) rest
      exact numberUpTo?_eq_none hnumber _

/-! ## Programs -/

/-- The word of a statement with a label as its address operand has the address of the label in its
low twelve bits, wherever the label is defined. The address is that of the first byte emitted behind
the label. Only a label behind the last byte of memory has an address of more than twelve bits. -/
theorem word_of_label {source : List Char} {assembled : Assembled}
    (h : ofCharacters source = .ok assembled) {name : List Char}
    {before after : List (List Char)} {definition : List Char}
    (hdefinition : lines source = before ++ definition :: after)
    (hname : name ∈ definedIn definition)
    {earlier later : List (List Char)} {use : List Char}
    (huse : lines source = earlier ++ use :: later) {statement : Statement}
    (hstatement : statementOf? use = some statement)
    (hoperand : statement.addressOperand? = some name) (hnumber : ¬IsMarkedAddress name) :
    let bytesOf := List.flatMap (emitted (labelsOf source))
    let address := programStart + (bytesOf before).length
    assembled.program = bytesOf before ++ bytesOf (definition :: after) ∧ address ≤ memorySize ∧
      ∃ w : UInt16, assembled.program = bytesOf earlier ++ (splitWord w ++ bytesOf later) ∧
        w.toNat % 4096 = address % 4096 := by
  intro bytesOf address
  have hassembles := assembles_of_ofCharacters h
  have hprogram : assembled.program = bytesOf before ++ bytesOf (definition :: after) :=
    hassembles.program_eq hdefinition
  obtain ⟨hisName, hlookup⟩ := address_of_label hassembles hdefinition hname
  have haddress : address? (labelsOf source) name = some (.ok (address % 4096)) := by
    rw [address?, numberUpTo?_of_isName hisName hnumber]
    simp only [hisName, if_true, hlookup]
    rfl
  obtain ⟨w, hw, hlow⟩ := encode_of_addressOperand? hoperand haddress (Nat.mod_lt _ (by decide))
  have hemitted : emitted (labelsOf source) use = splitWord w := by
    rw [emitted, hstatement]
    show (statement.encode (labelsOf source)).toOption.getD [] = splitWord w
    rw [hw]
    rfl
  refine ⟨hprogram, ?_, w, ?_, hlow⟩
  · have hfits := hassembles.fits
    rw [hprogram, List.length_append] at hfits
    have hmemory : programStart + maxProgramSize = memorySize := by decide
    omega
  · rw [← hemitted]
    exact hassembles.program_eq huse

/-- A label behind its use and behind a single byte: `JP e`, `db 1`, `e:CLS`. -/
theorem word_of_label_forward :
    let source :=
      ['J', 'P', ' ', 'e', '\n', 'd', 'b', ' ', '1', '\n', 'e', ':', 'C', 'L', 'S', '\n']
    ∃ assembled w, ofCharacters source = .ok assembled ∧
      assembled.program = splitWord w ++ [0x01, 0x00, 0xE0] ∧ w.toNat % 4096 = 0x203 := by
  intro source
  have hdefinition : lines source =
      [['J', 'P', ' ', 'e'], ['d', 'b', ' ', '1']] ++ ['e', ':', 'C', 'L', 'S'] :: [] := rfl
  have huse : lines source =
      [] ++ ['J', 'P', ' ', 'e'] :: [['d', 'b', ' ', '1'], ['e', ':', 'C', 'L', 'S']] := rfl
  have hname : ['e'] ∈ definedIn ['e', ':', 'C', 'L', 'S'] := List.mem_singleton.mpr rfl
  have hstatement : statementOf? ['J', 'P', ' ', 'e'] =
      some (.instruction ['J', 'P'] [['e']]) := rfl
  have hoperand : Statement.addressOperand? (.instruction ['J', 'P'] [['e']]) = some ['e'] := rfl
  have hnumber : ¬IsMarkedAddress ['e'] := by
    rintro ⟨digits, n, hx, -⟩
    cases hx
  have hlabels : labelsOf source = [(['e'], 0x203)] := rfl
  have hbefore : ([['J', 'P', ' ', 'e'], ['d', 'b', ' ', '1']].flatMap
      (emitted [(['e'], 0x203)])).length = 3 := rfl
  have hrest : [['d', 'b', ' ', '1'], ['e', ':', 'C', 'L', 'S']].flatMap
      (emitted [(['e'], 0x203)]) = [0x01, 0x00, 0xE0] := rfl
  cases hassembled : ofCharacters source with
  | error failure =>
    have hok : (ofCharacters source).toOption.isSome := rfl
    rw [hassembled] at hok
    cases hok
  | ok assembled =>
    obtain ⟨-, -, w, hprogram, hlow⟩ :=
      word_of_label hassembled hdefinition hname huse hstatement hoperand hnumber
    rw [hlabels, hrest] at hprogram
    rw [hlabels, hbefore] at hlow
    exact ⟨assembled, w, rfl, hprogram, hlow⟩

/-! ## Programs that fill memory -/

/-- Equal lines are placed one behind another. -/
theorem exists_layOut_replicate {raw : List Char} {statement : Statement} {labels : Labels}
    {rest : List (List Char)} {later : Layout} (hnames : (SourceLine.ofText raw).names = [])
    (hcode : Statement.ofText? (SourceLine.ofText raw).code = some statement) (n : Nat)
    {line address : Nat}
    (h : layOut (line + n) (address + n * statement.size) labels rest = .ok later) :
    ∃ placed, layOut line address labels (List.replicate n raw ++ rest) =
        .ok { later with placed := placed ++ later.placed } ∧
      placed.map (·.statement) = List.replicate n statement := by
  induction n generalizing line address with
  | zero =>
    rw [Nat.zero_mul] at h
    exact ⟨[], h, rfl⟩
  | succ n ih =>
    have hdefine : define line address labels (SourceLine.ofText raw).names = .ok labels := by
      rw [hnames]
      rfl
    have hline : line + (n + 1) = line + 1 + n := by omega
    have haddress : address + (n + 1) * statement.size =
        address + statement.size + n * statement.size := by
      rw [Nat.succ_mul]
      omega
    rw [hline, haddress] at h
    obtain ⟨placed, hplaced, hstatements⟩ := ih h
    let own : Placed := { line, text := (SourceLine.ofText raw).code, address, statement }
    refine ⟨own :: placed, ?_, ?_⟩
    · rw [List.replicate_succ, List.cons_append, layOut_cons_of_some hdefine hcode, hplaced]
      rfl
    · rw [List.map_cons, hstatements, List.replicate_succ]

/-- Equal statements encode to equal bytes. -/
theorem encodes_replicate {labels : Labels} {statement : Statement} {bytes : List UInt8}
    (h : statement.encode labels = .ok bytes) (n : Nat) {placed : List Placed}
    (hplaced : placed.map (·.statement) = List.replicate n statement) :
    Encodes labels placed (List.replicate n bytes).flatten := by
  induction n generalizing placed with
  | zero =>
    obtain rfl := List.map_eq_nil_iff.mp hplaced
    exact .nil
  | succ n ih =>
    obtain ⟨p, rest, rfl, hp, hrest⟩ := List.map_eq_cons_iff.mp hplaced
    have hp : p.statement = statement := hp
    exact .cons (hp ▸ h) (ih hrest)

/-- The line `JP e`. -/
def jumpLine : List Char := ['J', 'P', ' ', 'e']

/-- The line `CLS`. -/
def clearLine : List Char := ['C', 'L', 'S']

/-- The line `xa:JP xa`. -/
def markedLine : List Char := ['x', 'a', ':', 'J', 'P', ' ', 'x', 'a']

/-- The lines of a program that fills memory, with the label `e` behind it. -/
def filledLines : List (List Char) := jumpLine :: (List.replicate 1791 clearLine ++ [['e', ':']])

theorem lines_filledLines : lines (filledLines.flatMap (· ++ ['\n'])) = filledLines := by
  refine lines_flatMap fun l hl => ?_
  obtain rfl | hl := List.mem_cons.mp hl
  · decide
  · obtain hl | hl := List.mem_append.mp hl
    · rw [(List.mem_replicate.mp hl).2]
      decide
    · rw [List.mem_singleton.mp hl]
      decide

theorem ofCharacters_filledLines :
    ∃ assembled, ofCharacters (filledLines.flatMap (· ++ ['\n'])) = .ok assembled ∧
      assembled.program = splitWord 0x1000 ++ (List.replicate 1791 [0x00, 0xE0]).flatten := by
  let clear : Statement := .instruction clearLine []
  let jump : Statement := .instruction ['J', 'P'] [['e']]
  let labels : Labels := [(['e'], 4096)]
  have hnames : (SourceLine.ofText clearLine).names = [] := rfl
  have hclear : Statement.ofText? (SourceLine.ofText clearLine).code = some clear := rfl
  have hjump : Statement.ofText? (SourceLine.ofText jumpLine).code = some jump := rfl
  have hlabel : layOut (2 + 1791) (514 + 1791 * clear.size) [] [['e', ':']] =
      .ok { labels, placed := [], stop := 4096 } := rfl
  obtain ⟨placed, hplaced, hstatements⟩ := exists_layOut_replicate hnames hclear 1791 hlabel
  let first : Placed :=
    { line := 1, text := (SourceLine.ofText jumpLine).code, address := programStart
      statement := jump }
  have hlayout : layOut 1 programStart [] (lines (filledLines.flatMap (· ++ ['\n']))) =
      .ok { labels, placed := first :: (placed ++ []), stop := 4096 } := by
    have hdefine : define 1 programStart [] (SourceLine.ofText jumpLine).names = .ok [] := rfl
    rw [lines_filledLines, filledLines, layOut_cons_of_some hdefine hjump]
    exact congrArg (Except.map _) hplaced
  have hclearBytes : clear.encode labels = .ok [0x00, 0xE0] := rfl
  have hjumpBytes : jump.encode labels = .ok (splitWord 0x1000) := rfl
  have hrest := encodes_replicate hclearBytes 1791 hstatements
  rw [← List.append_nil placed] at hrest
  have hall : Encodes labels (first :: (placed ++ [])) (splitWord 0x1000 ++ _) :=
    .cons hjumpBytes hrest
  obtain ⟨assembled, hassembled, hprogram⟩ := exists_encodeAll hall programStart
  have hsize : 4096 - programStart ≤ maxProgramSize := by decide
  exact ⟨assembled, (ofCharacters_of_layOut hlayout hsize).trans hassembled, hprogram⟩

/-- The two limits. The label `e` has the address 4096 behind a program of 3584 bytes, and the jump
to it goes to 0. The jump to `xa` goes to 0x00A, although the label stands at the start. -/
theorem word_of_label_limits :
    (lines (filledLines.flatMap (· ++ ['\n'])) = filledLines ∧ ['e'] ∈ definedIn ['e', ':'] ∧
      (statementOf? jumpLine).bind (·.addressOperand?) = some ['e'] ∧
      ∃ assembled w more, ofCharacters (filledLines.flatMap (· ++ ['\n'])) = .ok assembled ∧
        assembled.program = splitWord w ++ more ∧
        w.toNat % 4096 ≠ programStart + assembled.program.length) ∧
    lines markedLine = [markedLine] ∧ ['x', 'a'] ∈ definedIn markedLine ∧
      (statementOf? markedLine).bind (·.addressOperand?) = some ['x', 'a'] ∧
      ∃ assembled w, ofCharacters markedLine = .ok assembled ∧
        assembled.program = splitWord w ∧ w.toNat % 4096 ≠ programStart := by
  refine ⟨⟨lines_filledLines, List.mem_singleton.mpr rfl, rfl, ?_⟩, rfl,
    List.mem_singleton.mpr rfl, rfl, ?_⟩
  · obtain ⟨assembled, hassembled, hprogram⟩ := ofCharacters_filledLines
    refine ⟨assembled, 0x1000, _, hassembled, hprogram, ?_⟩
    have hlow : (0x1000 : UInt16).toNat % 4096 = 0 := by decide
    rw [hlow]
    exact Nat.ne_of_lt (Nat.lt_of_lt_of_le (by decide) (Nat.le_add_right _ _))
  · have hmarked : (ofCharacters markedLine).map (·.program) = .ok (splitWord 0x100A) := rfl
    cases hassembled : ofCharacters markedLine with
    | error failure =>
      rw [hassembled] at hmarked
      cases hmarked
    | ok assembled =>
      rw [hassembled] at hmarked
      exact ⟨assembled, 0x100A, rfl, Except.ok.inj hmarked, by decide⟩

end ChipEight.Assembly
