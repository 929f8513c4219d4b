import ChipEight.Proofs.Instruction.Apart
import ChipEight.Proofs.Source.Placement

/-!
# One label more

What becomes of a source text when a label is defined that was not. Two assemblies run side by side,
and the second knows a label more. In the first pass nothing comes of this, until a line defines
the label once more: then it is a duplicate. In the second pass nothing comes of it either, but for
a statement that the first assembly refuses for want of this very label.
-/

namespace ChipEight.Assembly

open Text

/-! ## Tables of labels -/

/-- The second table has a label that the first one has not, and is the same otherwise. -/
structure Adds (name : List Char) (labels more : Labels) : Prop where
  absent : labels.lookup name = none
  present : (more.lookup name).isSome
  others : ∀ {other}, other ≠ name → more.lookup other = labels.lookup other

variable {name : List Char} {labels more : Labels} {line address : Nat} {ls : List (List Char)}

theorem Adds.cons (h : Adds name labels more) {other : List Char} (hne : other ≠ name) (a : Nat) :
    Adds name ((other, a) :: labels) ((other, a) :: more) where
  absent := by
    rw [List.lookup_cons, beq_false_of_ne hne.symm]
    exact h.absent
  present := by
    rw [List.lookup_cons, beq_false_of_ne hne.symm]
    exact h.present
  others := by
    intro third hthird
    rw [List.lookup_cons, List.lookup_cons, h.others hthird]

theorem adds_cons (h : labels.lookup name = none) (a : Nat) :
    Adds name labels ((name, a) :: labels) where
  absent := h
  present := by rw [List.lookup_cons_self]; rfl
  others := by
    intro other hother
    rw [List.lookup_cons, beq_false_of_ne hother]

/-! ## Results side by side -/

/-- The failure that a label is defined twice. -/
def duplicate (line : Nat) (name : List Char) : Failure :=
  .source line (.duplicateLabel (String.ofList name))

/-- The flaw that a label is not defined. -/
def undefined (name : List Char) : SourceFlaw := .undefinedLabel (String.ofList name)

/-- A result of the first pass, and the result with a label more: both fail alike, both succeed with
related outcomes, or the label has been defined once more. -/
inductive Beside {α β : Type} (name : List Char) (Again : Prop) (R : α → β → Prop) :
    Except Failure α → Except Failure β → Prop
  | fails (failure : Failure) : Beside name Again R (.error failure) (.error failure)
  | repeats (line : Nat) {result : Except Failure α} (hagain : Again) :
      Beside name Again R result (.error (duplicate line name))
  | succeeds {x : α} {y : β} (hrelated : R x y) : Beside name Again R (.ok x) (.ok y)

section

variable {α β γ δ : Type} {Again Before : Prop} {R : α → β → Prop} {S : γ → δ → Prop}
  {x : Except Failure α} {y : Except Failure β}

theorem Beside.mono (h : Beside name Before R x y) (hagain : Before → Again) :
    Beside name Again R x y := by
  cases h with
  | fails failure => exact .fails failure
  | repeats line hbefore => exact .repeats line (hagain hbefore)
  | succeeds hrelated => exact .succeeds hrelated

theorem Beside.bind (h : Beside name Again R x y) {f : α → Except Failure γ}
    {g : β → Except Failure δ} (hnext : ∀ a b, R a b → Beside name Again S (f a) (g b)) :
    Beside name Again S (x >>= f) (y >>= g) := by
  cases h with
  | fails failure => exact .fails failure
  | repeats line hagain => exact .repeats line hagain
  | succeeds hrelated => exact hnext _ _ hrelated

theorem Beside.map (h : Beside name Again R x y) {f : α → γ} {g : β → δ}
    (hnext : ∀ a b, R a b → S (f a) (g b)) : Beside name Again S (x.map f) (y.map g) := by
  cases h with
  | fails failure => exact .fails failure
  | repeats line hagain => exact .repeats line hagain
  | succeeds hrelated => exact .succeeds (hnext _ _ hrelated)

end

/-! ## First pass -/

theorem define_adds (h : Adds name labels more) (names : List (List Char)) :
    Beside name (name ∈ names ∧ isAddressMark name = false) (Adds name)
      (define line address labels names) (define line address more names) := by
  induction names generalizing labels more with
  | nil => exact .succeeds h
  | cons first rest ih =>
    have hlater : name ∈ rest ∧ isAddressMark name = false →
        name ∈ first :: rest ∧ isAddressMark name = false :=
      And.imp_left (List.mem_cons_of_mem first)
    rw [define, define]
    by_cases hmark : isAddressMark first = true
    · rw [if_pos hmark, if_pos hmark]
      exact (ih h).mono hlater
    · rw [if_neg hmark, if_neg hmark]
      by_cases hname : (!isName first) = true
      · rw [if_pos hname, if_pos hname]
        exact .fails _
      · rw [if_neg hname, if_neg hname]
        by_cases heq : first = name
        · subst heq
          rw [if_pos h.present]
          exact .repeats line ⟨List.mem_cons_self, eq_false_of_ne_true hmark⟩
        · rw [h.others heq]
          by_cases hknown : (labels.lookup first).isSome = true
          · rw [if_pos hknown, if_pos hknown]
            exact .fails _
          · rw [if_neg hknown, if_neg hknown]
            exact (ih (h.cons heq address)).mono hlater

/-- A line adds its labels and its statement to what the lines behind it come to. -/
theorem layOut_eq_bind (line address : Nat) (labels : Labels) (raw : List Char)
    (rest : List (List Char)) :
    layOut line address labels (raw :: rest) =
      define line address labels (SourceLine.ofText raw).names >>= fun defined =>
        (layOut (line + 1) (address + lineSize raw) defined rest).map fun later =>
          { later with placed := (placedOn line address raw).toList ++ later.placed } := by
  cases hdefine : define line address labels (SourceLine.ofText raw).names with
  | error failure =>
    rw [layOut]
    simp only [hdefine]
    rfl
  | ok defined =>
    rw [lineSize, placedOn, statementOf?]
    cases hcode : Statement.ofText? (SourceLine.ofText raw).code with
    | none =>
      rw [layOut_cons_of_none hdefine hcode]
      show layOut (line + 1) address defined rest = (layOut (line + 1) address defined rest).map _
      cases layOut (line + 1) address defined rest <;> rfl
    | some statement => exact layOut_cons_of_some hdefine hcode rest

/-- Two layouts differ in one label at most, which the second one has. -/
structure Layout.Adds (name : List Char) (x y : Layout) : Prop where
  labels : Assembly.Adds name x.labels y.labels
  placed : y.placed = x.placed
  stop : y.stop = x.stop

theorem layOut_adds (h : Adds name labels more) :
    Beside name (∃ raw ∈ ls, name ∈ definedIn raw) (Layout.Adds name)
      (layOut line address labels ls) (layOut line address more ls) := by
  induction ls generalizing line address labels more with
  | nil => exact .succeeds ⟨h, rfl, rfl⟩
  | cons raw rest ih =>
    rw [layOut_eq_bind, layOut_eq_bind]
    refine ((define_adds h _).mono ?_).bind fun defined defined' hadds => ?_
    · rintro ⟨hmem, hmark⟩
      exact ⟨raw, List.mem_cons_self, List.mem_filter.mpr ⟨hmem, by simp [hmark]⟩⟩
    · refine ((ih hadds).mono ?_).map fun x y hxy => ?_
      · rintro ⟨other, hother, hdefined⟩
        exact ⟨other, List.mem_cons_of_mem raw hother, hdefined⟩
      · exact ⟨hxy.labels, congrArg (_ ++ ·) hxy.placed, hxy.stop⟩

/-! ## Operands -/

/-- Two readings of the same text: the second one comes to the same, unless the first one lacks the
label. -/
def Gains {α : Type} (name : List Char) (x y : Option (Except SourceFlaw α)) : Prop :=
  y = x ∨ x = some (.error (undefined name)) ∧ y.isSome

theorem address?_adds (h : Adds name labels more) (s : List Char) :
    Gains name (address? labels s) (address? more s) := by
  unfold address?
  cases numberUpTo? 0xFFF s with
  | some n => exact .inl rfl
  | none =>
    dsimp only
    by_cases hname : isName s = true
    · rw [if_pos hname, if_pos hname]
      by_cases heq : s = name
      · subst heq
        obtain ⟨a, ha⟩ := Option.isSome_iff_exists.mp h.present
        rw [h.absent, ha]
        exact .inr ⟨rfl, rfl⟩
      · rw [h.others heq]
        exact .inl rfl
    · rw [if_neg hname, if_neg hname]
      exact .inl rfl

theorem readSlot_adds (h : Adds name labels more) (s : List Char) (slot : Slot) :
    Gains name (readSlot labels s slot) (readSlot more s slot) := by
  cases slot with
  | address => exact address?_adds h s
  | _ => exact .inl rfl

theorem readSlots_adds (h : Adds name labels more) : ∀ (slots : List Slot)
    (operands : List (List Char)),
    Gains name (readSlots labels slots operands) (readSlots more slots operands)
  | [], [] => .inl rfl
  | [], _ :: _ => .inl rfl
  | _ :: _, [] => .inl rfl
  | slot :: slots, s :: rest => by
    simp only [readSlots]
    obtain hfirst | ⟨hfirst, hsome⟩ := readSlot_adds h s slot
    · rw [hfirst]
      obtain hrest | ⟨hrest, hsome⟩ := readSlots_adds h slots rest
      · rw [hrest]
        exact .inl rfl
      · obtain ⟨result, hresult⟩ := Option.isSome_iff_exists.mp hsome
        rw [hrest, hresult]
        rcases readSlot labels s slot with _ | flaw | n
        · exact .inl rfl
        · exact .inl rfl
        · cases result <;> exact .inr ⟨rfl, rfl⟩
    · obtain ⟨result, hresult⟩ := Option.isSome_iff_exists.mp hsome
      rw [hfirst, hresult]
      obtain hrest | ⟨hrest, hsome⟩ := readSlots_adds h slots rest
      · rw [hrest]
        rcases readSlots labels slots rest with _ | flaw | m
        · cases result <;> exact .inl rfl
        · cases result <;> exact .inr ⟨rfl, rfl⟩
        · cases result <;> exact .inr ⟨rfl, rfl⟩
      · obtain ⟨later, hlater⟩ := Option.isSome_iff_exists.mp hsome
        rw [hrest, hlater]
        cases result <;> cases later <;> exact .inr ⟨rfl, rfl⟩

/-- The same form is chosen with a label more. -/
theorem findSome?_adds (h : Adds name labels more) (operands : List (List Char)) :
    ∀ forms : List Form, Gains name (forms.findSome? (encodeForm labels operands))
      (forms.findSome? (encodeForm more operands))
  | [] => .inl rfl
  | f :: forms => by
    rw [List.findSome?_cons, List.findSome?_cons, encodeForm, encodeForm]
    obtain hf | ⟨hf, hsome⟩ := readSlots_adds h f.slots operands
    · rw [hf]
      cases readSlots labels f.slots operands with
      | none => exact findSome?_adds h operands forms
      | some result => exact .inl rfl
    · obtain ⟨result, hresult⟩ := Option.isSome_iff_exists.mp hsome
      rw [hf, hresult]
      exact .inr ⟨rfl, rfl⟩

/-! ## Statements -/

theorem encode_adds (h : Adds name labels more) (statement : Statement) :
    statement.encode more = statement.encode labels ∨
      statement.encode labels = .error (undefined name) := by
  cases statement with
  | instruction mnemonic operands =>
    rw [Statement.encode, Statement.encode, encode, encode]
    obtain hforms | ⟨hforms, -⟩ := findSome?_adds h operands (formsOf mnemonic)
    · rw [hforms]
      exact .inl rfl
    · rw [hforms]
      exact .inr rfl
  | bytes values => exact .inl rfl
  | words values => exact .inl rfl

/-- Operands are refused only for want of a label that is not in the table. -/
theorem lookup_of_address?_eq_error {s : List Char} {flaw : SourceFlaw}
    (h : address? labels s = some (.error flaw)) :
    ∃ other, flaw = undefined other ∧ labels.lookup other = none := by
  unfold address? at h
  cases hnumber : numberUpTo? 0xFFF s with
  | some n =>
    rw [hnumber] at h
    cases h
  | none =>
    rw [hnumber] at h
    obtain ⟨-, h⟩ := Option.ite_none_right_eq_some.mp h
    cases hlookup : labels.lookup s with
    | some a =>
      rw [hlookup] at h
      cases h
    | none =>
      rw [hlookup] at h
      cases h
      exact ⟨s, rfl, hlookup⟩

theorem lookup_of_readSlots_eq_error {flaw : SourceFlaw} : ∀ {slots : List Slot}
    {operands : List (List Char)}, readSlots labels slots operands = some (.error flaw) →
    ∃ other, flaw = undefined other ∧ labels.lookup other = none
  | [], [], h => by cases h
  | [], _ :: _, h => by cases h
  | _ :: _, [], h => by cases h
  | slot :: slots, s :: rest, h => by
    simp only [readSlots] at h
    split at h
    · cases h
    · next flaw' result hfirst hrest =>
      cases h
      cases slot with
      | address => exact lookup_of_address?_eq_error hfirst
      | literal text =>
        obtain ⟨-, hok⟩ := Option.ite_none_right_eq_some.mp hfirst
        cases hok
      | _ =>
        obtain ⟨n, -, hok⟩ := Option.map_eq_some_iff.mp hfirst
        cases hok
    · next n flaw' hfirst hrest =>
      cases h
      exact lookup_of_readSlots_eq_error hrest
    · cases h

theorem undefined_inj {other : List Char} (h : undefined name = undefined other) :
    name = other := by
  have htexts : String.ofList name = String.ofList other := SourceFlaw.undefinedLabel.inj h
  exact String.ofList_injective htexts

theorem valueBytes_eq_error {max : Nat} {bytes : Nat → List UInt8} {flaw : String → SourceFlaw}
    {e : SourceFlaw} {values : List (List Char)} (h : valueBytes max bytes flaw values = .error e) :
    ∃ text, e = flaw text := by
  induction values with
  | nil => cases h
  | cons s rest ih =>
    rw [valueBytes] at h
    cases hs : numberUpTo? max s with
    | none =>
      rw [hs] at h
      cases h
      exact ⟨_, rfl⟩
    | some n =>
      cases hrest : valueBytes max bytes flaw rest with
      | error e' =>
        simp only [hs, hrest] at h
        cases h
        exact ih hrest
      | ok more =>
        simp only [hs, hrest] at h
        cases h

/-- A statement is not refused for want of a label that the table has. -/
theorem encode_ne_undefined (h : (labels.lookup name).isSome) (statement : Statement) :
    statement.encode labels ≠ .error (undefined name) := by
  intro hrefused
  cases statement with
  | instruction mnemonic operands =>
    rw [Statement.encode, encode] at hrefused
    cases hforms : (formsOf mnemonic).findSome? (encodeForm labels operands) with
    | none =>
      rw [hforms] at hrefused
      dsimp only at hrefused
      split at hrefused <;> cases hrefused
    | some result =>
      rw [hforms] at hrefused
      cases result with
      | ok w => cases hrefused
      | error flaw =>
        cases hrefused
        obtain ⟨f, -, hf⟩ := List.exists_of_findSome?_eq_some hforms
        obtain ⟨value, hvalue, hresult⟩ := Option.map_eq_some_iff.mp hf
        cases value with
        | ok n => cases hresult
        | error flaw =>
          cases hresult
          obtain ⟨other, hother, hlookup⟩ := lookup_of_readSlots_eq_error hvalue
          obtain rfl := undefined_inj hother
          rw [hlookup] at h
          cases h
  | bytes values =>
    obtain ⟨text, htext⟩ := valueBytes_eq_error hrefused
    cases htext
  | words values =>
    obtain ⟨text, htext⟩ := valueBytes_eq_error hrefused
    cases htext

/-! ## Second pass -/

/-- A result that fails because the label is not defined. -/
def Lacks {α : Type} (name : List Char) (result : Except Failure α) : Prop :=
  ∃ line, result = .error (.source line (undefined name))

theorem encodeAll_adds (h : Adds name labels more) (placed : List Placed) (address : Nat) :
    encodeAll more address placed = encodeAll labels address placed ∨
      Lacks name (encodeAll labels address placed) := by
  induction placed generalizing address with
  | nil => exact .inl rfl
  | cons p rest ih =>
    rw [encodeAll, encodeAll]
    obtain hp | hp := encode_adds h p.statement
    · rw [hp]
      cases p.statement.encode labels with
      | error flaw => exact .inl rfl
      | ok bytes =>
        obtain hrest | ⟨line, hrest⟩ := ih (address + bytes.length)
        · dsimp only
          rw [hrest]
          exact .inl rfl
        · dsimp only
          rw [hrest]
          exact .inr ⟨line, rfl⟩
    · rw [hp]
      exact .inr ⟨p.line, rfl⟩

theorem not_lacks_encodeAll (h : (labels.lookup name).isSome) (placed : List Placed)
    (address : Nat) : ¬Lacks name (encodeAll labels address placed) := by
  induction placed generalizing address with
  | nil =>
    rintro ⟨line, hline⟩
    cases hline
  | cons p rest ih =>
    rintro ⟨line, hline⟩
    rw [encodeAll] at hline
    cases hp : p.statement.encode labels with
    | error flaw =>
      rw [hp] at hline
      cases hline
      exact encode_ne_undefined h p.statement hp
    | ok bytes =>
      rw [hp] at hline
      dsimp only at hline
      cases hrest : encodeAll labels (address + bytes.length) rest with
      | error failure =>
        rw [hrest] at hline
        cases hline
        exact ih _ ⟨line, hrest⟩
      | ok later =>
        rw [hrest] at hline
        cases hline

/-! ## Both passes -/

/-- A result that fails because the label is defined twice. -/
def Repeats {α : Type} (name : List Char) (result : Except Failure α) : Prop :=
  ∃ line, result = .error (duplicate line name)

/-- The second pass over a layout, if the program fits in memory. -/
def Layout.encode (layout : Layout) : Except Failure Assembled :=
  if layout.stop - programStart > maxProgramSize then
    .error (.misfit (.tooLarge (layout.stop - programStart) maxProgramSize))
  else encodeAll layout.labels programStart layout.placed

theorem ofCharacters_eq_bind (source : List Char) :
    ofCharacters source = layOut 1 programStart [] (lines source) >>= Layout.encode := by
  rw [ofCharacters]
  refine bind_congr fun layout => ?_
  dsimp only
  rw [Layout.encode]
  by_cases hsize : layout.stop - programStart > maxProgramSize
  · rw [if_pos hsize, if_pos hsize]
    rfl
  · rw [if_neg hsize, if_neg hsize]

theorem not_lacks_define (names : List (List Char)) :
    ¬Lacks name (define line address labels names) := by
  induction names generalizing labels with
  | nil =>
    rintro ⟨n, hn⟩
    cases hn
  | cons first rest ih =>
    rw [define]
    split
    · exact ih
    · split
      · rintro ⟨n, hn⟩
        cases hn
      · split
        · rintro ⟨n, hn⟩
          cases hn
        · exact ih

/-- The first pass looks no label up. -/
theorem not_lacks_layOut (ls : List (List Char)) : ¬Lacks name (layOut line address labels ls) := by
  induction ls generalizing line address labels with
  | nil =>
    rintro ⟨n, hn⟩
    cases hn
  | cons raw rest ih =>
    rintro ⟨n, hn⟩
    rw [layOut_eq_bind] at hn
    cases hdefine : define line address labels (SourceLine.ofText raw).names with
    | error failure =>
      rw [hdefine] at hn
      cases hn
      exact not_lacks_define _ ⟨n, hdefine⟩
    | ok defined =>
      rw [hdefine] at hn
      cases hlater : layOut (line + 1) (address + lineSize raw) defined rest with
      | error failure =>
        simp only [bind, Except.bind, hlater] at hn
        cases hn
        exact ih ⟨n, hlater⟩
      | ok later =>
        simp only [bind, Except.bind, hlater] at hn
        cases hn

theorem not_lacks_encode {layout : Layout} (h : (layout.labels.lookup name).isSome) :
    ¬Lacks name layout.encode := by
  rw [Layout.encode]
  split
  · rintro ⟨line, hline⟩
    cases hline
  · exact not_lacks_encodeAll h _ _

theorem encode_layout_adds {x y : Layout} (h : x.Adds name y) :
    y.encode = x.encode ∨ Lacks name x.encode := by
  rw [Layout.encode, Layout.encode, h.stop, h.placed]
  split
  · exact .inl rfl
  · exact encodeAll_adds h.labels _ _

/-- With a label more, a source text comes to the same result, unless it fails without the label or
defines it again. -/
theorem Beside.result {Again : Prop} {x y : Except Failure Layout}
    (h : Beside name Again (Layout.Adds name) x y) :
    y >>= Layout.encode = x >>= Layout.encode ∨ Lacks name (x >>= Layout.encode) ∨
      Again ∧ Repeats name (y >>= Layout.encode) := by
  cases h with
  | fails failure => exact .inl rfl
  | repeats line hagain => exact .inr (.inr ⟨hagain, line, rfl⟩)
  | succeeds hadds =>
    simp only [Bind.bind, Except.bind]
    exact (encode_layout_adds hadds).imp_right .inl

end ChipEight.Assembly
