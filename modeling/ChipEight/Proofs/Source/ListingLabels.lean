import Mathlib.Data.List.Sort
import ChipEight.Proofs.Source.AddressMarks
import ChipEight.Proofs.Source.ListingRoundtrip

/-!
# The labels of a listing

Which addresses a listing has labels for, how the labels are numbered, and where their names turn
up: each once in a line of its own, in front of the word at its address, and once in every
instruction that refers to it. `Numbers` says which address has which number, by the words alone;
`Shows` says what the lines look like.

## Two orders

Labels are numbered in the order in which the words refer to them, but their lines come in the
order of the addresses. So the numbering is an induction on the words that leaves out the addresses
met before (`pairwise_eraseDups_filterMap`), and the lines are an induction on the words that takes
the finished numbering as given.
-/

namespace ChipEight.Listing

open Text Assembly

/-! ## References -/

/-- How an instruction with an address is written, up to the address. -/
def addressHead? (w : UInt16) : Option (List Char) :=
  match w.toNat / 4096 with
  | 0x1 => some "JP ".toList
  | 0x2 => some "CALL ".toList
  | 0xA => some "LD I, ".toList
  | 0xB => some "JP V0, ".toList
  | _ => none

/-- A word is an instruction with an address, and this is the address. -/
def RefersTo (a w : UInt16) : Prop := (addressHead? w).isSome ∧ w.toNat % 4096 = a.toNat

instance (a w : UInt16) : Decidable (RefersTo a w) := inferInstanceAs (Decidable (_ ∧ _))

/-- The number of the first word that refers to an address. -/
def firstReference (ws : List UInt16) (a : UInt16) : Nat :=
  ws.findIdx fun w => decide (RefersTo a w)

/-- The addresses that get a label, in the order of their labels: the words refer to them, a word
starts at each of them, and the earlier reference gets the smaller number. -/
structure Numbers (ws targets : List UInt16) : Prop where
  mem_iff : ∀ a, a ∈ targets ↔
    (∃ w ∈ ws, RefersTo a w) ∧ ∃ i < ws.length, a.toNat = programStart + 2 * i
  ordered : targets.Pairwise fun a b => firstReference ws a < firstReference ws b

variable {ws targets : List UInt16} {a w : UInt16} {head : List Char}

theorem Numbers.nodup (h : Numbers ws targets) : targets.Nodup :=
  h.ordered.imp fun hlt heq => absurd (heq ▸ hlt) (Nat.lt_irrefl _)

/-- The words decide about the labels. -/
theorem Numbers.eq {others : List UInt16} (h : Numbers ws targets) (h' : Numbers ws others) :
    others = targets := by
  let before (a b : UInt16) : Prop := firstReference ws a < firstReference ws b
  have hirrefl : Std.Irrefl before := ⟨fun a => Nat.lt_irrefl _⟩
  have hantisymm : Std.Antisymm before := ⟨fun a b hab hba => absurd hab (Nat.lt_asymm hba)⟩
  refine List.Pairwise.eq_of_mem_iff (r := before) h'.ordered h.ordered fun a => ?_
  rw [h.mem_iff, h'.mem_iff]

/-! ## Instructions with an address -/

theorem covers_of_leading {d : Fin 16} (h : w.toNat / 4096 = d.val) :
    Shape.Covers ⟨.fixed d, .free, .free, .free⟩ w := by
  have hdigit : digitAt w 3 = d := by
    have hlt := w.toNat_lt
    apply Fin.ext
    simp only [digitAt]
    omega
  rw [Shape.covers_iff_fits, hdigit]
  simp [Shape.fits, Digit.fits]

theorem leading_of_covers {d : Fin 16} {s : Shape} (hs : s.first = .fixed d) (h : s.Covers w) :
    w.toNat / 4096 = d.val := by
  rw [Shape.covers_iff_fits] at h
  simp only [Shape.fits, hs, Digit.fits, Bool.and_eq_true, beq_iff_eq] at h
  have hdigit := congrArg Fin.val h.1.1.1
  have hlt := w.toNat_lt
  simp only [digitAt] at hdigit
  omega

/-- The rows of instructions with an address. -/
theorem exists_form_of_head (h : addressHead? w = some head) :
    ∃ f, Form.find? w = some f ∧ f.hasAddress = true ∧
      ∀ target o, f.written target o = head ++ target := by
  have hrow {d : Fin 16} (f : Form) (hleading : w.toNat / 4096 = d.val) (hf : f ∈ Form.table)
      (hshape : f.shape = ⟨.fixed d, .free, .free, .free⟩) : Form.find? w = some f :=
    find?_eq_some_iff.mpr ⟨hf, hshape ▸ covers_of_leading hleading⟩
  unfold addressHead? at h
  split at h <;> cases h
  case h_1 hleading =>
    refine ⟨_, hrow (d := 0x1) ⟨.jump, "JP", [.address], ⟨0x1, .free, .free, .free⟩, .chip8⟩
      hleading (by decide) rfl, rfl, fun target o => ?_⟩
    simp [Form.written, Slot.written]
  case h_2 hleading =>
    refine ⟨_, hrow (d := 0x2) ⟨.call, "CALL", [.address], ⟨0x2, .free, .free, .free⟩, .chip8⟩
      hleading (by decide) rfl, rfl, fun target o => ?_⟩
    simp [Form.written, Slot.written]
  case h_3 hleading =>
    refine ⟨_, hrow (d := 0xA) ⟨.setIndex, "LD", [.literal "I", .address],
      ⟨0xA, .free, .free, .free⟩, .chip8⟩ hleading (by decide) rfl, rfl, fun target o => ?_⟩
    simp [Form.written, Slot.written]
  case h_4 hleading =>
    refine ⟨_, hrow (d := 0xB) ⟨.jumpOffset, "JP", [.literal "V0", .address],
      ⟨0xB, .free, .free, .free⟩, .chip8⟩ hleading (by decide) rfl, rfl, fun target o => ?_⟩
    simp [Form.written, Slot.written]

/-- The other instructions have no address. -/
theorem hasAddress_of_head (h : addressHead? w = none) {f : Form} (hf : Form.find? w = some f) :
    f.hasAddress = false := by
  have htable : ∀ g ∈ Form.table, g.hasAddress = true →
      ∃ d ∈ ([0x1, 0x2, 0xA, 0xB] : List (Fin 16)), g.shape.first = .fixed d := by decide
  refine eq_false_of_ne_true fun haddress => ?_
  obtain ⟨d, hd, hfirst⟩ := htable f (mem_table_of_find? hf) haddress
  have hleading := leading_of_covers hfirst (covers_of_find? hf)
  simp only [List.mem_cons, List.not_mem_nil, or_false] at hd
  unfold addressHead? at h
  obtain rfl | rfl | rfl | rfl := hd <;> rw [hleading] at h <;> cases h

/-- A word refers to an address if it has that address for its target. -/
theorem jumpTarget?_eq_some_iff : jumpTarget? w = some a ↔ RefersTo a w := by
  have haddress : (Operands.ofWord w).address = a ↔ w.toNat % 4096 = a.toNat := by
    rw [← UInt16.toNat_inj, Operands.toNat_address_ofWord]
  cases hhead : addressHead? w with
  | none =>
    refine iff_of_false ?_ fun h => by simp [RefersTo, hhead] at h
    cases hform : Form.find? w with
    | none => simp [jumpTarget?, hform]
    | some f => simp [jumpTarget?, hform, hasAddress_of_head hhead hform]
  | some head =>
    obtain ⟨f, hform, hhas, -⟩ := exists_form_of_head hhead
    simp [jumpTarget?, hform, hhas, RefersTo, hhead, haddress]

/-- An instruction with an address is written as its head and the address. -/
theorem wordText_of_head (label? : UInt16 → Option Nat) (h : addressHead? w = some head) :
    wordText label? w = head ++ addressText label? (Operands.ofWord w).address := by
  obtain ⟨f, hform, -, hwritten⟩ := exists_form_of_head h
  rw [wordText, hform]
  exact hwritten _ _

theorem written_congr {f : Form} (h : f.hasAddress = false) (target other : List Char)
    (o : Operands) : f.written target o = f.written other o := by
  have haddress : Slot.address ∉ f.slots := by simpa [Form.hasAddress] using h
  have htexts : f.operandTexts target o = f.operandTexts other o := by
    refine List.map_congr_left fun slot hslot => ?_
    cases slot with
    | address => exact absurd hslot haddress
    | _ => rfl
  obtain ⟨hnil, htext⟩ | ⟨hne, htext⟩ := f.written_eq target o <;>
    obtain ⟨hnil', htext'⟩ | ⟨hne', htext'⟩ := f.written_eq other o
  · rw [htext, htext']
  · exact absurd (htexts ▸ hnil) hne'
  · exact absurd (htexts ▸ hnil') hne
  · rw [htext, htext', htexts]

/-- All other words are written as they are without labels. -/
theorem wordText_of_head_eq_none (label? : UInt16 → Option Nat) (h : addressHead? w = none) :
    wordText label? w = (disassemble w).toList := by
  rw [disassemble, String.toList_ofList, wordText, wordText]
  cases hform : Form.find? w with
  | none => rfl
  | some f => exact written_congr (hasAddress_of_head h hform) _ _ _

/-! ## The numbering -/

/-- What is left of a list when only the first occurrence of each value is kept stands in the order
of these occurrences. -/
theorem pairwise_eraseDups_filterMap {α β : Type} [DecidableEq β] (l : List α) (f : α → Option β) :
    (l.filterMap f).eraseDups.Pairwise fun a b =>
      l.findIdx (fun x => decide (f x = some a)) < l.findIdx (fun x => decide (f x = some b)) := by
  induction l generalizing f with
  | nil => exact .nil
  | cons x l ih =>
    cases hx : f x with
    | none =>
      rw [List.filterMap_cons_none hx]
      refine (ih f).imp fun hlt => ?_
      rw [List.findIdx_cons, List.findIdx_cons, hx]
      exact Nat.succ_lt_succ hlt
    | some c =>
      -- Behind `c` only the values other than `c` are kept, and those have their places in `l`.
      let g (y : α) : Option β := (f y).filter fun b => !b == c
      have hg {b : β} (hb : b ≠ c) (y : α) : g y = some b ↔ f y = some b := by
        simp [g, Option.filter_eq_some_iff, hb]
      have hrest : (l.filterMap f).filter (fun b => !b == c) = l.filterMap g :=
        List.filter_filterMap
      have hne {b : β} (hb : b ∈ (l.filterMap g).eraseDups) : b ≠ c := by
        rw [List.mem_eraseDups, ← hrest] at hb
        simpa using (List.mem_filter.mp hb).2
      have hplace {b : β} (hb : b ≠ c) : (x :: l).findIdx (fun y => decide (f y = some b)) =
          l.findIdx (fun y => decide (g y = some b)) + 1 := by
        simp only [List.findIdx_cons, hx, Option.some.injEq, hb.symm, decide_false, cond_false,
          hg hb]
      rw [List.filterMap_cons_some hx, List.eraseDups_cons, hrest, List.pairwise_cons]
      constructor
      · intro b hb
        rw [hplace (hne hb), List.findIdx_cons, hx]
        simp
      · refine (ih g).imp_of_mem fun ha hb hlt => ?_
        rw [hplace (hne ha), hplace (hne hb)]
        exact Nat.succ_lt_succ hlt

/-- A listing numbers its labels as it should. -/
theorem numbers_labelled (ws : List UInt16) : Numbers ws (labelled ws) := by
  let target? (w : UInt16) : Option UInt16 := (jumpTarget? w).filter (startsWord ws.length)
  have hlabelled : labelled ws = (ws.filterMap target?).eraseDups :=
    congrArg List.eraseDups List.filter_filterMap
  have htarget {a w : UInt16} : target? w = some a ↔
      RefersTo a w ∧ startsWord ws.length a = true := by
    rw [← jumpTarget?_eq_some_iff]
    exact Option.filter_eq_some_iff
  rw [hlabelled]
  constructor
  · intro a
    simp only [List.mem_eraseDups, List.mem_filterMap, htarget, ← startsWord_iff]
    exact ⟨fun ⟨w, hw, href, hstart⟩ => ⟨⟨w, hw, href⟩, hstart⟩,
      fun ⟨⟨w, hw, href⟩, hstart⟩ => ⟨w, hw, href, hstart⟩⟩
  · refine (pairwise_eraseDups_filterMap ws target?).imp_of_mem fun {a b} ha hb hlt => ?_
    have hplace {c : UInt16} (hc : c ∈ (ws.filterMap target?).eraseDups) :
        ws.findIdx (fun w => decide (target? w = some c)) = firstReference ws c := by
      obtain ⟨w, -, hw⟩ := List.mem_filterMap.mp (List.mem_eraseDups.mp hc)
      simp only [firstReference, htarget, (htarget.mp hw).2, and_true]
    rwa [hplace ha, hplace hb] at hlt

/-! ## Lines -/

/-- Whether a line only defines a label. -/
def isLabelLine (l : List Char) : Bool := l.getLast? == some ':'

/-- The line of a label. -/
def labelLine (n : Nat) : List Char := labelName n ++ [':']

/-- The lines that are left without the lines of labels. -/
def codeLines (ls : List (List Char)) : List (List Char) := ls.filter fun l => !isLabelLine l

/-- The text of an address operand: the label of the address, or else three digits. -/
structure IsAddressText (targets : List UInt16) (a : UInt16) (s : List Char) : Prop where
  label_iff : ∀ n, s = labelName (n + 1) ↔ targets[n]? = some a
  digits : a ∉ targets →
    s = ['$', digitChar (a.toNat / 256), digitChar (a.toNat / 16 % 16), digitChar (a.toNat % 16)]

/-- What the lines of a program look like with labels for some addresses. -/
structure Shows (options : ListingOptions) (program : List UInt8) (targets : List UInt16)
    (ls : List (List Char)) : Prop where
  /-- Every line that is no label line stands for a word or for the odd byte. -/
  length : (codeLines ls).length = (words program).length + (oddByte? program).toList.length
  /-- An instruction with an address names its label, or else the address. -/
  reference : ∀ (i : Nat) (w : UInt16) (head : List Char), (words program)[i]? = some w →
    addressHead? w = some head →
    ∃ s, IsAddressText targets (UInt16.ofNat (w.toNat % 4096)) s ∧
      (codeLines ls)[i]? = some (addressMark options (programStart + 2 * i) ++ (head ++ s))
  /-- The other words have no use for labels. -/
  others : ∀ (i : Nat) (w : UInt16), (words program)[i]? = some w → addressHead? w = none →
    (codeLines ls)[i]? =
      some (addressMark options (programStart + 2 * i) ++ (disassemble w).toList)
  /-- There are no labels but these. -/
  numbered : ∀ l ∈ ls, isLabelLine l = true → ∃ n < targets.length, l = labelLine (n + 1)
  /-- Each label has one line, and the next line is that of the word at its address. -/
  placed : ∀ (n : Nat) (a : UInt16), targets[n]? = some a →
    ∃ before line after, ls = before ++ labelLine (n + 1) :: line :: after ∧
      labelLine (n + 1) ∉ before ∧ labelLine (n + 1) ∉ line :: after ∧
      isLabelLine line = false ∧ a.toNat = programStart + 2 * (codeLines before).length

theorem isLabelLine_labelLine (n : Nat) : isLabelLine (labelLine n) = true := by
  simp [isLabelLine, labelLine]

/-- A line that ends in a phrase defines no label. -/
theorem isLabelLine_append {s : List Char} (hs : IsPhrase s) (mark : List Char) :
    isLabelLine (mark ++ s) = false := by
  rw [isLabelLine, List.getLast?_append_of_ne_nil _ hs.ne_nil, beq_eq_false_iff_ne]
  exact fun hlast => absurd (hs.last ':' hlast) (by decide)

theorem codeLines_append (ls ks : List (List Char)) :
    codeLines (ls ++ ks) = codeLines ls ++ codeLines ks := List.filter_append ..

theorem labelLine_ne {l : List Char} (h : isLabelLine l = false) (n : Nat) : labelLine n ≠ l := by
  rintro rfl
  rw [isLabelLine_labelLine] at h
  cases h

variable {options : ListingOptions} {address : Nat}

theorem linesFrom_append (ws vs : List UInt16) :
    linesFrom options targets address (ws ++ vs) =
      linesFrom options targets address ws ++
        linesFrom options targets (address + 2 * ws.length) vs := by
  induction ws generalizing address with
  | nil => rfl
  | cons w ws ih =>
    have hstop : address + 2 + 2 * ws.length = address + 2 * (w :: ws).length := by
      rw [List.length_cons]
      omega
    rw [List.cons_append, linesFrom, linesFrom, ih, hstop, List.append_assoc]

theorem exists_of_mem_ownLines {l : List Char} (h : l ∈ ownLines targets address) :
    ∃ n, labelAt targets (UInt16.ofNat address) = some n ∧ l = labelLine n := by
  obtain ⟨n, hn, rfl⟩ := List.mem_map.mp h
  exact ⟨n, Option.mem_toList.mp hn, rfl⟩

theorem codeLines_ownLines (targets : List UInt16) (address : Nat) :
    codeLines (ownLines targets address) = [] := by
  refine List.filter_eq_nil_iff.mpr fun l hl => ?_
  obtain ⟨n, -, rfl⟩ := exists_of_mem_ownLines hl
  simp [isLabelLine_labelLine]

/-- Every word has a line. -/
theorem codeLines_linesFrom (ws : List UInt16) :
    codeLines (linesFrom options targets address ws) = ws.mapIdx fun i w =>
      addressMark options (address + 2 * i) ++ wordText (labelAt targets) w := by
  induction ws generalizing address with
  | nil => rfl
  | cons w ws ih =>
    have hword : codeLines [addressMark options address ++ wordText (labelAt targets) w] =
        [addressMark options address ++ wordText (labelAt targets) w] := by
      simp [codeLines, isLabelLine_append (isPhrase_wordText _ w)]
    have hnext (i : Nat) : address + 2 * (i + 1) = address + 2 + 2 * i := by omega
    rw [linesFrom, wordLines_eq, codeLines_append, codeLines_append, codeLines_ownLines, hword, ih]
    simp only [List.mapIdx_cons, hnext]
    rfl

/-- Label lines belong to words with a label. -/
theorem exists_of_isLabelLine {l : List Char} (h : l ∈ linesFrom options targets address ws)
    (hlabel : isLabelLine l = true) :
    ∃ i < ws.length, ∃ n, labelAt targets (UInt16.ofNat (address + 2 * i)) = some n ∧
      l = labelLine n := by
  induction ws generalizing address with
  | nil => cases h
  | cons w ws ih =>
    rw [linesFrom, wordLines_eq] at h
    obtain h | h := List.mem_append.mp h
    · obtain h | h := List.mem_append.mp h
      · exact ⟨0, Nat.succ_pos _, exists_of_mem_ownLines h⟩
      · rw [List.mem_singleton.mp h, isLabelLine_append (isPhrase_wordText _ w)] at hlabel
        cases hlabel
    · obtain ⟨i, hi, hrest⟩ := ih h
      have hnext : address + 2 + 2 * i = address + 2 * (i + 1) := by omega
      exact ⟨i + 1, Nat.succ_lt_succ hi, hnext ▸ hrest⟩

/-! ## Labels in their places -/

theorem labelAt_eq_some_iff (h : targets.Nodup) {n : Nat} :
    labelAt targets a = some (n + 1) ↔ targets[n]? = some a := by
  have hnumber : labelAt targets a = some (n + 1) ↔ targets.idxOf? a = some n := by
    simp [labelAt]
  rw [hnumber, List.idxOf?_eq_some_iff, List.getElem?_eq_some_iff]
  refine exists_congr fun hn => and_iff_left_of_imp ?_
  rintro rfl j hj heq
  exact absurd (h.getElem_inj_iff.mp heq) (Nat.ne_of_lt hj)

theorem labelAt_eq_none_iff : labelAt targets a = none ↔ a ∉ targets := by
  rw [labelAt, Option.map_eq_none_iff, List.idxOf?_eq_none_iff]

/-- An address is written as its label if it has one. -/
theorem isAddressText_addressText (h : targets.Nodup) (ha : a.toNat < 4096) :
    IsAddressText targets a (addressText (labelAt targets) a) := by
  have hdollar (n : Nat) : dollar 3 a.toNat ≠ labelName n :=
    fun heq => absurd (List.cons.inj heq).1 (by decide)
  constructor
  · intro n
    rw [← labelAt_eq_some_iff h, addressText]
    cases hlabel : labelAt targets a with
    | none => exact iff_of_false (hdollar _) (Option.some_ne_none _).symm
    | some k => exact ⟨fun heq => congrArg some (labelName_inj heq), fun heq => by cases heq; rfl⟩
  · intro hnot
    rw [addressText, labelAt_eq_none_iff.mpr hnot]
    exact congrArg ('$' :: ·) (hex_three (Nat.le_of_lt_succ ha))

/-- The label of an address among its lines. -/
theorem ownLines_of_getElem? (h : targets.Nodup) {n : Nat} (hn : targets[n]? = some a) :
    ownLines targets a.toNat = [labelLine (n + 1)] := by
  have hlabel : labelAt targets (UInt16.ofNat a.toNat) = some (n + 1) := by
    rw [UInt16.ofNat_toNat]
    exact (labelAt_eq_some_iff h).mpr hn
  rw [ownLines, hlabel]
  rfl

/-- The label of an address stands in no line of another address. -/
theorem labelLine_not_mem_linesFrom (h : targets.Nodup) {n : Nat} (hn : targets[n]? = some a)
    (hother : ∀ i < ws.length, (address + 2 * i) % 65536 ≠ a.toNat) :
    labelLine (n + 1) ∉ linesFrom options targets address ws := by
  intro hmem
  obtain ⟨i, hi, k, hk, heq⟩ := exists_of_isLabelLine hmem (isLabelLine_labelLine _)
  obtain rfl : n + 1 = k := labelName_inj (List.append_cancel_right heq)
  have ha := eq_of_labelAt hk ((labelAt_eq_some_iff h).mpr hn)
  refine hother i hi ?_
  rw [← ha, UInt16.toNat_ofNat']

/-! ## Whole listings -/

theorem isLabelLine_byteLine (options : ListingOptions) (address : Nat) (byte : UInt8) :
    isLabelLine (byteLine options address byte) = false := by
  rw [byteLine, List.append_assoc]
  exact isLabelLine_append (isPhrase_byteText byte) _

variable {program : List UInt8}

/-- The lines of a listing that has labels for some addresses. -/
def linesWith (options : ListingOptions) (targets : List UInt16) (program : List UInt8) :
    List (List Char) :=
  linesFrom options targets programStart (words program) ++
    (oddByte? program).toList.map (byteLine options (programStart + 2 * (words program).length))

theorem codeLines_linesWith :
    codeLines (linesWith options targets program) =
      (words program).mapIdx (fun i w => addressMark options (programStart + 2 * i) ++
        wordText (labelAt targets) w) ++
      (oddByte? program).toList.map
        (byteLine options (programStart + 2 * (words program).length)) := by
  have hodd : ∀ l ∈ (oddByte? program).toList.map
      (byteLine options (programStart + 2 * (words program).length)), (!isLabelLine l) = true := by
    intro l hl
    obtain ⟨byte, -, rfl⟩ := List.mem_map.mp hl
    rw [isLabelLine_byteLine]
    rfl
  rw [linesWith, codeLines_append, codeLines_linesFrom, codeLines, List.filter_eq_self.mpr hodd]

theorem getElem?_codeLines {i : Nat} (h : (words program)[i]? = some w) :
    (codeLines (linesWith options targets program))[i]? =
      some (addressMark options (programStart + 2 * i) ++ wordText (labelAt targets) w) := by
  obtain ⟨hi, -⟩ := List.getElem?_eq_some_iff.mp h
  rw [codeLines_linesWith, List.getElem?_append_left (by rwa [List.length_mapIdx]),
    List.getElem?_mapIdx, h]
  rfl

/-- The line of a label stands in front of the line of the word at its address, and nowhere else. -/
theorem exists_placed (options : ListingOptions) (h : Numbers (words program) targets)
    (hlength : program.length ≤ maxProgramSize) {n : Nat} (hn : targets[n]? = some a) :
    ∃ before line after,
      linesWith options targets program = before ++ labelLine (n + 1) :: line :: after ∧
      labelLine (n + 1) ∉ before ∧ labelLine (n + 1) ∉ line :: after ∧
      isLabelLine line = false ∧ a.toNat = programStart + 2 * (codeLines before).length := by
  have hmax : programStart + maxProgramSize = 4096 := by decide
  have hwords := length_eq_words program
  obtain ⟨-, i, hi, ha⟩ := (h.mem_iff a).mp (List.mem_of_getElem? hn)
  -- The words before that at the address, this word, and the words behind it.
  have hsplit : words program =
      (words program).take i ++ (words program)[i] :: (words program).drop (i + 1) := by
    rw [List.getElem_cons_drop, List.take_append_drop]
  have htake : ((words program).take i).length = i := List.length_take_of_le (Nat.le_of_lt hi)
  have hstart : programStart + 2 * ((words program).take i).length = a.toNat := by
    rw [htake, ha]
  have hword : isLabelLine (addressMark options a.toNat ++
      wordText (labelAt targets) (words program)[i]) = false :=
    isLabelLine_append (isPhrase_wordText _ _) _
  refine ⟨linesFrom options targets programStart ((words program).take i),
    addressMark options a.toNat ++ wordText (labelAt targets) (words program)[i],
    linesFrom options targets (a.toNat + 2) ((words program).drop (i + 1)) ++
      (oddByte? program).toList.map
        (byteLine options (programStart + 2 * (words program).length)), ?_, ?_, ?_, hword, ?_⟩
  · rw [linesWith]
    conv_lhs => rw [hsplit]
    rw [linesFrom_append, hstart, linesFrom, wordLines_eq, ownLines_of_getElem? h.nodup hn]
    simp
  · refine labelLine_not_mem_linesFrom h.nodup hn fun j hj => ?_
    rw [htake] at hj
    omega
  · refine List.not_mem_cons_of_ne_of_not_mem (labelLine_ne hword _) fun hmem => ?_
    obtain hmem | hmem := List.mem_append.mp hmem
    · refine labelLine_not_mem_linesFrom h.nodup hn (fun j hj => ?_) hmem
      rw [List.length_drop] at hj
      omega
    · obtain ⟨byte, -, heq⟩ := List.mem_map.mp hmem
      exact labelLine_ne (isLabelLine_byteLine _ _ byte) _ heq.symm
  · rw [codeLines_linesFrom, List.length_mapIdx, htake, ha]

/-- The labels of a program are shown as they are numbered. -/
theorem shows_linesWith (options : ListingOptions) (h : Numbers (words program) targets)
    (hlength : program.length ≤ maxProgramSize) :
    Shows options program targets (linesWith options targets program) := by
  constructor
  case length =>
    rw [codeLines_linesWith, List.length_append, List.length_mapIdx, List.length_map]
  case reference =>
    intro i w head hw hhead
    have haddress : (Operands.ofWord w).address = UInt16.ofNat (w.toNat % 4096) := rfl
    refine ⟨_, isAddressText_addressText h.nodup ?_, ?_⟩
    · rw [← haddress, Operands.toNat_address_ofWord]
      exact Nat.mod_lt _ (by decide)
    · rw [getElem?_codeLines hw, wordText_of_head _ hhead, haddress]
  case others =>
    intro i w hw hhead
    rw [getElem?_codeLines hw, wordText_of_head_eq_none _ hhead]
  case numbered =>
    intro l hl hlabel
    obtain hl | hl := List.mem_append.mp hl
    · obtain ⟨i, -, n, hn, rfl⟩ := exists_of_isLabelLine hl hlabel
      obtain ⟨k, hk, rfl⟩ := Option.map_eq_some_iff.mp hn
      exact ⟨k, (List.idxOf?_eq_some_iff.mp hk).1, rfl⟩
    · obtain ⟨byte, -, rfl⟩ := List.mem_map.mp hl
      rw [isLabelLine_byteLine] at hlabel
      cases hlabel
  case placed => exact fun n a hn => exists_placed options h hlength hn

/-- A listing with labels has them for the addresses that the words of the program decide on, and
for no others, and shows them in the order of the first references. -/
theorem labels_of_listing (addresses : Bool) {program : List UInt8}
    (hlength : program.length ≤ maxProgramSize) :
    ∃ targets, (∀ others, Numbers (words program) others ↔ others = targets) ∧
      Shows { addresses, labels := true } program targets
        (Text.lines (listing { addresses, labels := true } program).toList) := by
  have hnumbers := numbers_labelled (words program)
  refine ⟨labelled (words program), fun others => ⟨hnumbers.eq, fun heq => heq ▸ hnumbers⟩, ?_⟩
  rw [listing, String.toList_ofList, lines_characters]
  exact shows_linesWith _ hnumbers hlength

/-- A call forward, a jump to itself, a load from outside the program, a second reference, a jump
between two words, and an odd byte: the call has the first label, which comes last. -/
theorem labels_of_listing_forward :
    let program : List UInt8 :=
      [0x22, 0x06, 0x12, 0x02, 0xA0, 0x50, 0x12, 0x06, 0x12, 0x03, 0x61]
    program.length ≤ maxProgramSize ∧ Numbers (words program) [0x206, 0x202] ∧
      Shows { addresses := true, labels := true } program [0x206, 0x202]
        (Text.lines (listing { addresses := true, labels := true } program).toList) := by
  intro program
  have hlength : program.length ≤ maxProgramSize := by decide
  have hlabelled : labelled (words program) = [0x206, 0x202] := by decide +kernel
  have hnumbers := numbers_labelled (words program)
  rw [hlabelled] at hnumbers
  obtain ⟨targets, hunique, hshows⟩ := labels_of_listing true hlength
  rw [← (hunique _).mp hnumbers] at hshows
  exact ⟨hlength, hnumbers, hshows⟩

end ChipEight.Listing
