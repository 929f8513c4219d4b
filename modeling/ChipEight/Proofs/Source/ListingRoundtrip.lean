import ChipEight.Proofs.Source.ListingLines
import ChipEight.Proofs.Words

/-!
# Assembling a listing gives the program back

## Two steps

* **First pass.** The lines are laid out at the addresses at which they were listed. The labels
  that this defines are `labelsFrom`: for each address the label of the listing and, where the
  address in front of a line starts with a letter, that address as a name.
* **Second pass.** Each statement encodes to the bytes it was written from. A word may name a label
  before its line comes, so this needs the labels of the whole listing.

## The invariant

While the lines are laid out, the labels defined so far belong to addresses below the current one
and have names that say which address it is (`Below`). So no label is ever defined twice, and a
label that an operand names is found under its own address.
-/

namespace ChipEight.Listing

open Text Assembly

/-! ## The labels of a listing -/

/-- The address in front of a line as a label, if the assembler takes it for one. -/
def markLabels (options : ListingOptions) (address : Nat) : Labels :=
  if options.addresses && !isAddressMark (hex 3 address) then [(hex 3 address, address)] else []

/-- The label that the listing writes for an address. -/
def ownLabels (targets : List UInt16) (address : Nat) : Labels :=
  (labelAt targets (UInt16.ofNat address)).toList.map fun n => (labelName n, address)

/-- The line of that label. -/
def ownLines (targets : List UInt16) (address : Nat) : List (List Char) :=
  (labelAt targets (UInt16.ofNat address)).toList.map fun n => labelName n ++ [':']

theorem wordLines_eq (options : ListingOptions) (targets : List UInt16) (address : Nat)
    (w : UInt16) :
    wordLines options targets address w =
      ownLines targets address ++
        [addressMark options address ++ wordText (labelAt targets) w] := by
  unfold wordLines ownLines
  cases labelAt targets (UInt16.ofNat address) <;> rfl

/-- The labels that the lines of `count` words define, latest first. -/
def labelsFrom (options : ListingOptions) (targets : List UInt16) (address : Nat) : Nat → Labels
  | 0 => []
  | count + 1 =>
    labelsFrom options targets (address + 2) count ++
      (markLabels options address ++ ownLabels targets address)

/-- Whether a listing may use a name for an address. -/
def Names (targets : List UInt16) (name : List Char) (address : Nat) : Prop :=
  name = hex 3 address ∨
    ∃ n, labelAt targets (UInt16.ofNat address) = some n ∧ name = labelName n

/-- The labels defined so far are names of addresses below the current one. -/
def Below (targets : List UInt16) (labels : Labels) (address : Nat) : Prop :=
  ∀ name a, (name, a) ∈ labels → a < address ∧ Names targets name a

/-! ## Names tell addresses apart -/

theorem hex_ne_labelName (width a n : Nat) : hex width a ≠ labelName n := by
  have hdigit : ∀ c ∈ hex width a, c ≠ 'l' := forall_mem_hex (by decide) width a
  intro h
  refine hdigit 'l' ?_ rfl
  rw [h]
  exact List.mem_cons_self

theorem labelName_inj {n k : Nat} (h : labelName n = labelName k) : n = k :=
  decimal_inj (List.append_cancel_left h)

theorem eq_of_labelAt {targets : List UInt16} {a b : UInt16} {n : Nat}
    (ha : labelAt targets a = some n) (hb : labelAt targets b = some n) : a = b := by
  obtain ⟨i, hi, rfl⟩ := Option.map_eq_some_iff.mp ha
  obtain ⟨j, hj, hij⟩ := Option.map_eq_some_iff.mp hb
  obtain rfl : j = i := Nat.succ.inj hij
  obtain ⟨_, ha, -⟩ := List.idxOf?_eq_some_iff.mp hi
  obtain ⟨_, hb, -⟩ := List.idxOf?_eq_some_iff.mp hj
  exact ha.symm.trans hb

/-- A name belongs to one address. -/
theorem Names.eq {targets : List UInt16} {name : List Char} {a b : Nat}
    (ha : Names targets name a) (hb : Names targets name b) (hla : a < 65536) (hlb : b < 65536) :
    a = b := by
  rcases ha with ha | ⟨n, hn, ha⟩
  · rcases hb with hb | ⟨k, -, hb⟩
    · exact hex_inj (ha.symm.trans hb)
    · exact absurd (ha.symm.trans hb) (hex_ne_labelName 3 a k)
  · rcases hb with hb | ⟨k, hk, hb⟩
    · exact absurd (hb.symm.trans ha) (hex_ne_labelName 3 b n)
    · obtain rfl := labelName_inj (ha.symm.trans hb)
      have h : (UInt16.ofNat a).toNat = (UInt16.ofNat b).toNat := by rw [eq_of_labelAt hn hk]
      rw [UInt16.toNat_ofNat', UInt16.toNat_ofNat'] at h
      omega

theorem names_of_mem_labels {options : ListingOptions} {targets : List UInt16} {address a : Nat}
    {name : List Char}
    (h : (name, a) ∈ markLabels options address ++ ownLabels targets address) :
    a = address ∧ Names targets name a := by
  rcases List.mem_append.mp h with h | h
  · unfold markLabels at h
    split at h
    · obtain ⟨rfl, rfl⟩ := Prod.mk.inj (List.mem_singleton.mp h)
      exact ⟨rfl, Or.inl rfl⟩
    · simp at h
  · obtain ⟨n, hn, heq⟩ := List.mem_map.mp h
    obtain ⟨rfl, rfl⟩ := Prod.mk.inj heq
    exact ⟨rfl, Or.inr ⟨n, Option.mem_toList.mp hn, rfl⟩⟩

/-! ## Looking labels up -/

theorem lookup_eq_none_of_forall {labels : Labels} {name : List Char}
    (h : ∀ a, (name, a) ∉ labels) : labels.lookup name = none := by
  rw [List.lookup_eq_none_iff]
  rintro ⟨k, a⟩ hp
  have hne : name ≠ k := fun heq => h a (heq ▸ hp)
  simpa using hne

/-- A label with one address is found under it. -/
theorem lookup_eq_some_of_unique {name : List Char} {a : Nat} :
    ∀ {labels : Labels}, (name, a) ∈ labels → (∀ b, (name, b) ∈ labels → b = a) →
    labels.lookup name = some a
  | [], h, _ => by simp at h
  | (k, b) :: labels, h, hu => by
    by_cases hk : name = k
    · subst hk
      rw [List.lookup_cons_self, hu b List.mem_cons_self]
    · have hm : (name, a) ∈ labels := by
        rcases List.mem_cons.mp h with heq | hm
        · exact absurd (Prod.mk.inj heq).1 hk
        · exact hm
      rw [List.lookup_cons, show (name == k) = false by simpa using hk]
      exact lookup_eq_some_of_unique hm fun c hc => hu c (List.mem_cons_of_mem _ hc)

theorem Below.lookup_eq_none {targets : List UInt16} {labels : Labels} {address : Nat}
    {name : List Char} (h : Below targets labels address) (hn : Names targets name address)
    (hlt : address < 65536) : labels.lookup name = none := by
  refine lookup_eq_none_of_forall ?_
  intro a ha
  obtain ⟨hlta, hna⟩ := h name a ha
  have := hna.eq hn (by omega) hlt
  omega

/-- Labels that the lines at an address define keep the invariant for the addresses behind it. -/
theorem Below.extend {options : ListingOptions} {targets : List UInt16} {labels new : Labels}
    {address next : Nat} (h : Below targets labels address)
    (hnew : ∀ p ∈ new, p ∈ markLabels options address ++ ownLabels targets address)
    (hnext : address < next) : Below targets (new ++ labels) next := by
  intro name a ha
  rcases List.mem_append.mp ha with ha | ha
  · obtain ⟨rfl, hn⟩ := names_of_mem_labels (hnew _ ha)
    exact ⟨hnext, hn⟩
  · obtain ⟨hlt, hn⟩ := h name a ha
    exact ⟨Nat.lt_trans hlt hnext, hn⟩

/-! ## First pass -/

theorem isAddressMark_labelName (n : Nat) : isAddressMark (labelName n) = false := rfl

/-- The address in front of a line is skipped, or becomes a label. -/
theorem define_markNames {options : ListingOptions} {line address : Nat} {labels : Labels}
    (hnew : labels.lookup (hex 3 address) = none) :
    define line address labels (markNames options address) =
      .ok (markLabels options address ++ labels) := by
  cases hoption : options.addresses with
  | false => simp [markNames, markLabels, hoption, define]
  | true =>
    cases hmark : isAddressMark (hex 3 address) with
    | true =>
      simp [markNames, markLabels, hoption, hmark, define_cons_of_isAddressMark hmark, define]
    | false =>
      simp [markNames, markLabels, hoption, hmark,
        define_cons_of_isName hmark (isName_hex hmark) hnew, define]

/-- A label line defines the label of its address. -/
theorem layOut_ownLine {targets : List UInt16} (line : Nat) {address : Nat} {labels : Labels}
    (hb : Below targets labels address) (hlt : address < 65536) (rest : List (List Char)) :
    ∃ next, layOut line address labels (ownLines targets address ++ rest) =
      layOut next address (ownLabels targets address ++ labels) rest := by
  cases hn : labelAt targets (UInt16.ofNat address) with
  | none => exact ⟨line, by simp [ownLines, ownLabels, hn]⟩
  | some n =>
    refine ⟨line + 1, ?_⟩
    have hnew : labels.lookup (labelName n) = none :=
      hb.lookup_eq_none (Or.inr ⟨n, hn, rfl⟩) hlt
    have hdefine : define line address labels (SourceLine.ofText (labelName n ++ [':'])).names =
        .ok (ownLabels targets address ++ labels) := by
      rw [ofText_labelLine, define_cons_of_isName (isAddressMark_labelName n) (isName_labelName n)
        hnew]
      simp [define, ownLabels, hn]
    have hlines : ownLines targets address = [labelName n ++ [':']] := by simp [ownLines, hn]
    rw [hlines, List.singleton_append]
    exact layOut_cons_of_none hdefine (by rw [ofText_labelLine]; rfl) rest

/-- A line with an address in front places its statement at the address. -/
theorem layOut_markedLine (options : ListingOptions) (line : Nat) {address : Nat}
    {labels : Labels} {s : List Char} {statement : Statement} (hs : IsPhrase s)
    (hstatement : Statement.ofText? s = some statement)
    (hnew : labels.lookup (hex 3 address) = none) (rest : List (List Char)) :
    layOut line address labels ((addressMark options address ++ s) :: rest) =
      (layOut (line + 1) (address + statement.size) (markLabels options address ++ labels)
          rest).map fun later =>
        { later with placed := { line, text := s, address, statement } :: later.placed } := by
  have hline := ofText_markedLine options address hs
  have hdefine : define line address labels
      (SourceLine.ofText (addressMark options address ++ s)).names =
        .ok (markLabels options address ++ labels) := by
    rw [hline]
    exact define_markNames hnew
  have hcode : Statement.ofText? (SourceLine.ofText (addressMark options address ++ s)).code =
      some statement := by rw [hline]; exact hstatement
  rw [layOut_cons_of_some hdefine hcode rest, hline]

/-- The address of a line is no label yet, not even after the label line in front of it. -/
theorem lookup_hex_ownLabels {targets : List UInt16} {address : Nat} {labels : Labels}
    (hb : Below targets labels address) (hlt : address < 65536) :
    (ownLabels targets address ++ labels).lookup (hex 3 address) = none := by
  refine lookup_eq_none_of_forall ?_
  intro a ha
  rcases List.mem_append.mp ha with ha | ha
  · obtain ⟨n, -, heq⟩ := List.mem_map.mp ha
    exact hex_ne_labelName 3 address n (Prod.mk.inj heq).1.symm
  · obtain ⟨hlta, hn⟩ := hb _ a ha
    have := hn.eq (b := address) (Or.inl rfl) (by omega) hlt
    omega

/-- The lines of a word define the labels of its address and place its statement there. -/
theorem exists_layOut_wordLines (options : ListingOptions) {targets : List UInt16} (line : Nat)
    {address : Nat} {labels : Labels} (hb : Below targets labels address)
    (hlt : address < 65536) (w : UInt16) (rest : List (List Char)) :
    ∃ next own,
      layOut line address labels (wordLines options targets address w ++ rest) =
        (layOut next (address + 2)
            (markLabels options address ++ ownLabels targets address ++ labels) rest).map
          (fun later => { later with placed := own :: later.placed }) ∧
      ∀ known : Labels, Resolves (labelAt targets) known w →
        own.statement.encode known = .ok (splitWord w) := by
  obtain ⟨statement, htext, hsize, hencode⟩ := ofText?_wordText (labelAt targets) w
  obtain ⟨next, hown⟩ := layOut_ownLine line hb hlt
    ((addressMark options address ++ wordText (labelAt targets) w) :: rest)
  have hmarked := layOut_markedLine options next
    (isPhrase_wordText (labelAt targets) w) htext (lookup_hex_ownLabels hb hlt) rest
  rw [hsize] at hmarked
  refine ⟨next + 1, { line := next, text := wordText (labelAt targets) w, address, statement },
    ?_, hencode⟩
  rw [wordLines_eq, List.append_assoc, List.singleton_append, hown, hmarked, List.append_assoc]

/-- The lines of words are laid out where they were listed, and their statements encode to the
words as soon as the labels of the words are known. -/
theorem exists_layOut_linesFrom (options : ListingOptions) {targets : List UInt16} :
    ∀ (ws : List UInt16) (line address : Nat) (labels : Labels) (tail : List (List Char)),
    Below targets labels address → address + 2 * ws.length ≤ 65536 →
    ∃ next placed,
      layOut line address labels (linesFrom options targets address ws ++ tail) =
        (layOut next (address + 2 * ws.length)
            (labelsFrom options targets address ws.length ++ labels) tail).map (fun later =>
          { later with placed := placed ++ later.placed }) ∧
      Below targets (labelsFrom options targets address ws.length ++ labels)
        (address + 2 * ws.length) ∧
      ∀ known : Labels, (∀ w ∈ ws, Resolves (labelAt targets) known w) →
        Encodes known placed (ws.flatMap splitWord)
  | [], line, address, labels, tail, hb, _ => by
    refine ⟨line, [], ?_, hb, fun _ _ => .nil⟩
    show layOut line address labels tail = (layOut line address labels tail).map id
    cases layOut line address labels tail <;> rfl
  | w :: ws, line, address, labels, tail, hb, hlen => by
    rw [List.length_cons] at hlen
    -- The word is laid out over the labels so far, the rest over those with its labels in front.
    obtain ⟨next, own, hword, hown⟩ := exists_layOut_wordLines options line
      hb (by omega) w (linesFrom options targets (address + 2) ws ++ tail)
    obtain ⟨last, placed, hrest, hbelow, hplaced⟩ :=
      exists_layOut_linesFrom options ws next (address + 2) _ tail
        (hb.extend (fun _ hp => hp) (by omega)) (by omega)
    have haddress : address + 2 * (w :: ws).length = address + 2 + 2 * ws.length := by
      rw [List.length_cons]
      omega
    have hlabels : labelsFrom options targets address (w :: ws).length ++ labels =
        labelsFrom options targets (address + 2) ws.length ++
          (markLabels options address ++ ownLabels targets address ++ labels) := by
      rw [List.length_cons, labelsFrom]
      simp only [List.append_assoc]
    rw [haddress, hlabels]
    refine ⟨last, own :: placed, ?_, hbelow, ?_⟩
    · rw [linesFrom, List.append_assoc, hword, hrest]
      cases layOut last (address + 2 + 2 * ws.length) _ tail <;> rfl
    · intro known hknown
      rw [List.flatMap_cons]
      refine .cons (hown known (hknown w List.mem_cons_self)) (hplaced known ?_)
      exact fun v hv => hknown v (List.mem_cons_of_mem _ hv)

/-! ## Second pass -/

theorem mem_of_labelAt {targets : List UInt16} {a : UInt16} {n : Nat}
    (h : labelAt targets a = some n) : a ∈ targets := by
  obtain ⟨i, hi, -⟩ := Option.map_eq_some_iff.mp h
  obtain ⟨hlt, ha, -⟩ := List.idxOf?_eq_some_iff.mp hi
  rw [← ha]
  exact List.getElem_mem hlt

theorem startsWord_iff {count : Nat} {a : UInt16} :
    startsWord count a = true ↔ ∃ i < count, a.toNat = programStart + 2 * i := by
  have heven : programStart % 2 = 0 := by decide
  simp only [startsWord, Bool.and_eq_true, decide_eq_true_eq, beq_iff_eq]
  constructor
  · rintro ⟨⟨hle, hlt⟩, hmod⟩
    exact ⟨(a.toNat - programStart) / 2, by omega, by omega⟩
  · rintro ⟨i, hi, ha⟩
    omega

/-- A word starts at each address that gets a label. -/
theorem exists_of_mem_labelled {ws : List UInt16} {a : UInt16} (h : a ∈ labelled ws) :
    ∃ i < ws.length, a.toNat = programStart + 2 * i :=
  startsWord_iff.mp (List.mem_filter.mp (List.mem_eraseDups.mp h)).2

/-- The words define the labels at their addresses. -/
theorem mem_labelsFrom (options : ListingOptions) {targets : List UInt16} {n : Nat} :
    ∀ {count : Nat} (address i : Nat), i < count →
    labelAt targets (UInt16.ofNat (address + 2 * i)) = some n →
    (labelName n, address + 2 * i) ∈ labelsFrom options targets address count
  | 0, _, _, hi, _ => absurd hi (Nat.not_lt_zero _)
  | _ + 1, address, 0, _, hn => by
    refine List.mem_append_right _ (List.mem_append_right _ ?_)
    have hn : labelAt targets (UInt16.ofNat address) = some n := hn
    simp [ownLabels, hn]
  | count + 1, address, i + 1, hi, hn => by
    have haddress : address + 2 * (i + 1) = address + 2 + 2 * i := by omega
    rw [haddress] at hn ⊢
    exact List.mem_append_left _ (mem_labelsFrom options (address + 2) i (by omega) hn)

/-- All labels that operands name are found under their addresses. -/
theorem resolves_of_below (options : ListingOptions) {targets : List UInt16} {known : Labels}
    {count stop : Nat}
    (htargets : ∀ a ∈ targets, ∃ i < count, a.toNat = programStart + 2 * i)
    (hsub : ∀ p ∈ labelsFrom options targets programStart count, p ∈ known)
    (hb : Below targets known stop) (hstop : stop ≤ 65536) (w : UInt16) :
    Resolves (labelAt targets) known w := by
  intro a n _ hn
  obtain ⟨i, hi, ha⟩ := htargets a (mem_of_labelAt hn)
  have hofNat : UInt16.ofNat a.toNat = a := UInt16.ofNat_toNat
  have hown : labelAt targets (UInt16.ofNat (programStart + 2 * i)) = some n := by
    rw [← ha, hofNat]
    exact hn
  have hm : (labelName n, a.toNat) ∈ known := by
    rw [ha]
    exact hsub _ (mem_labelsFrom options programStart i hi hown)
  -- A label in front of this one would have its name, and a name belongs to one address.
  refine lookup_eq_some_of_unique hm ?_
  intro b hmb
  obtain ⟨hltb, hnb⟩ := hb _ b hmb
  refine hnb.eq (Or.inr ⟨n, ?_, rfl⟩) (by omega) a.toNat_lt
  rw [hofNat]
  exact hn

/-- The line of an odd byte is laid out behind the words, and its statement encodes to the byte. -/
theorem exists_layOut_byteLines (options : ListingOptions) {targets : List UInt16}
    (line : Nat) {address : Nat} {labels : Labels} (hb : Below targets labels address)
    (hlt : address < 65535) (odd : Option UInt8) :
    ∃ known placed,
      layOut line address labels (odd.toList.map (byteLine options address)) =
        .ok { labels := known, placed, stop := address + odd.toList.length } ∧
      (∀ p ∈ labels, p ∈ known) ∧ Below targets known (address + 1) ∧
      Encodes known placed odd.toList := by
  cases odd with
  | none =>
    have hnone : ∀ p ∈ ([] : Labels), p ∈ markLabels options address ++ ownLabels targets address :=
      fun _ hp => absurd hp List.not_mem_nil
    exact ⟨labels, [], rfl, fun p hp => hp, hb.extend hnone (Nat.lt_succ_self address), .nil⟩
  | some byte =>
    have hnew := hb.lookup_eq_none (Or.inl rfl) (by omega)
    have hline := layOut_markedLine options line (isPhrase_byteText byte)
      (ofText?_directive (isToken_dollar 2 byte.toNat)).2 hnew []
    let own : Placed :=
      { line, text := ".db ".toList ++ dollar 2 byte.toNat, address,
        statement := .bytes [dollar 2 byte.toNat] }
    have hmax : byte.toNat ≤ 0xFF := Nat.le_of_lt_succ byte.toNat_lt
    have hencode : ∀ known, own.statement.encode known = .ok [byte] := by
      intro known
      simp [own, Statement.encode, valueBytes, numberUpTo?_dollar 2 hmax (by decide), Except.map]
    refine ⟨markLabels options address ++ labels, [own], ?_,
      fun p hp => List.mem_append_right _ hp,
      hb.extend (fun p hp => List.mem_append_left _ hp) (by omega), .cons (hencode _) .nil⟩
    show layOut line address labels [addressMark options address ++ ".db ".toList ++ _] = _
    rw [List.append_assoc, hline]
    rfl

/-! ## Whole listings -/

theorem length_eq_words (program : List UInt8) :
    program.length = 2 * (words program).length + (oddByte? program).toList.length := by
  rw [← length_flatMap_splitWord, ← List.length_append, flatMap_splitWord_words]

/-- The first pass goes through the lines of a listing, and what it places encodes to the
program. -/
theorem exists_layOut_lines (options : ListingOptions) {program : List UInt8}
    (h : program.length ≤ maxProgramSize) :
    ∃ layout, layOut 1 programStart [] (lines options program) = .ok layout ∧
      layout.stop = programStart + program.length ∧
      Encodes layout.labels layout.placed program := by
  have hlength := length_eq_words program
  have hmax : programStart + maxProgramSize = 4096 := by decide
  let targets := if options.labels then labelled (words program) else []
  have htargets : ∀ a ∈ targets, ∃ i < (words program).length, a.toNat = programStart + 2 * i := by
    intro a ha
    by_cases hoption : options.labels = true
    · rw [show targets = labelled (words program) from if_pos hoption] at ha
      exact exists_of_mem_labelled ha
    · rw [show targets = [] from if_neg hoption] at ha
      simp at ha
  have hstart : Below targets [] programStart := fun _ _ ha => by simp at ha
  obtain ⟨next, placed, hwords, hbelow, hplaced⟩ := exists_layOut_linesFrom options
    (words program) 1 programStart []
    ((oddByte? program).toList.map (byteLine options (programStart + 2 * (words program).length)))
    hstart (by omega)
  obtain ⟨known, last, hodd, hsub, hall, hlast⟩ :=
    exists_layOut_byteLines options next hbelow (by omega) (oddByte? program)
  refine ⟨{ labels := known, placed := placed ++ last, stop := programStart + program.length },
    ?_, rfl, ?_⟩
  · show layOut 1 programStart [] (linesFrom options targets programStart (words program) ++ _) = _
    rw [hwords, hodd, hlength, Nat.add_assoc]
    rfl
  · have hresolves : ∀ w ∈ words program, Resolves (labelAt targets) known w := by
      intro w _
      refine resolves_of_below options htargets ?_ hall (by omega) w
      intro p hp
      exact hsub p (List.mem_append_left _ hp)
    have hencodes := (hplaced known hresolves).append hlast
    rwa [flatMap_splitWord_words] at hencodes

/-- Assembling the listing of a program succeeds and gives the program back. -/
theorem assemble_listing (options : ListingOptions) (program : List UInt8)
    (h : program.length ≤ maxProgramSize) :
    (assemble (listing options program)).map (·.program) = .ok program := by
  obtain ⟨layout, hlayout, hstop, hencodes⟩ := exists_layOut_lines options h
  obtain ⟨result, hresult, hprogram⟩ := exists_encodeAll hencodes programStart
  have hsize : layout.stop - programStart ≤ maxProgramSize := by omega
  have hassembled : assemble (listing options program) = .ok result := by
    rw [assemble, listing, String.toList_ofList, ← hresult]
    refine ofCharacters_of_layOut ?_ hsize
    rw [lines_characters, hlayout]
  rw [hassembled, ← hprogram]
  rfl

/-- A jump forward and one back, a call that leaves the program, a word that is no instruction, and
an odd byte. -/
theorem assemble_listing_mixed :
    (assemble (listing { addresses := true, labels := true }
      [0x12, 0x04, 0x12, 0x00, 0x2A, 0xBC, 0xFF, 0xFF, 0x61])).map (·.program) =
        .ok [0x12, 0x04, 0x12, 0x00, 0x2A, 0xBC, 0xFF, 0xFF, 0x61] :=
  assemble_listing { addresses := true, labels := true }
    [0x12, 0x04, 0x12, 0x00, 0x2A, 0xBC, 0xFF, 0xFF, 0x61] (by decide)

end ChipEight.Listing
