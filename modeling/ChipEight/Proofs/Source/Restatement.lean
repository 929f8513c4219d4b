import Mathlib.Data.List.Forall2
import ChipEight.Proofs.Instruction.Encoding
import ChipEight.Proofs.Source.Definitions

/-!
# Sources that say the same

Lines restate others when they define the same labels at the same addresses, in any order on the
way, and have statements with the same bytes in the same order (`Restates`). Then they assemble to
the same program (`Accepted.restate`). The two passes are gone through here once, so what is said of
a line elsewhere is about its labels and its statement only.
-/

namespace ChipEight.Assembly

open Text

variable {labels more : Labels} {line address : Nat} {ls ls' : List (List Char)}
  {statement other : Statement} {program : List UInt8}

/-! ## Labels in the second pass -/

section

variable (h : ∀ name, labels.lookup name = more.lookup name)

include h

theorem readSlot_congr (s : List Char) (slot : Slot) :
    readSlot labels s slot = readSlot more s slot := by
  cases slot with
  | address => rw [readSlot, readSlot, address?, address?, h]
  | _ => rfl

theorem readSlots_congr : ∀ (slots : List Slot) (operands : List (List Char)),
    readSlots labels slots operands = readSlots more slots operands
  | [], [] | [], _ :: _ | _ :: _, [] => rfl
  | slot :: slots, s :: rest => by
    simp only [readSlots, readSlot_congr h, readSlots_congr slots rest]

/-- Only the addresses of labels matter to a statement, not how they are stored. -/
theorem encode_congr (statement : Statement) :
    statement.encode labels = statement.encode more := by
  cases statement with
  | instruction mnemonic operands =>
    have hform : encodeForm labels operands = encodeForm more operands := by
      funext f
      rw [encodeForm, encodeForm, readSlots_congr h]
    rw [Statement.encode, Statement.encode, encode, encode, hform]
  | bytes values | words values => rfl

end

/-! ## Statements -/

/-- A statement can stand where another one does: it takes as many bytes, and they are the same
wherever the other one encodes. -/
structure Replaces (statement other : Statement) : Prop where
  size : other.size = statement.size
  encode : ∀ {labels bytes}, statement.encode labels = .ok bytes → other.encode labels = .ok bytes

theorem Replaces.refl (statement : Statement) : Replaces statement statement := ⟨rfl, id⟩

theorem sum_size_of_replaces {statements others : List Statement}
    (h : List.Forall₂ Replaces statements others) :
    (others.map Statement.size).sum = (statements.map Statement.size).sum := by
  induction h with
  | nil => rfl
  | cons head tail ih =>
    rw [List.map_cons, List.sum_cons, head.size, ih, List.map_cons, List.sum_cons]

theorem Encodes.replace {placed : List Placed} (h : Encodes labels placed program)
    (hlookup : ∀ name, labels.lookup name = more.lookup name) {others : List Placed}
    (hothers : List.Forall₂ Replaces (placed.map (·.statement)) (others.map (·.statement))) :
    Encodes more others program := by
  induction h generalizing others with
  | nil =>
    obtain rfl := List.map_eq_nil_iff.mp (List.forall₂_nil_left_iff.mp hothers)
    exact .nil
  | cons head tail ih =>
    rw [List.map_cons, List.forall₂_cons_left_iff] at hothers
    obtain ⟨first, later, hfirst, hlater, hmap⟩ := hothers
    obtain ⟨q, rest, rfl, rfl, rfl⟩ := List.map_eq_cons_iff.mp hmap
    have hq := hfirst.encode head
    rw [encode_congr hlookup] at hq
    exact .cons hq (ih hlater)

/-! ## Lines -/

theorem sum_lineSize_eq (ls : List (List Char)) :
    (ls.map lineSize).sum = ((ls.filterMap statementOf?).map Statement.size).sum := by
  induction ls with
  | nil => rfl
  | cons raw rest ih =>
    rw [List.map_cons, List.sum_cons, ih, lineSize, List.filterMap_cons]
    cases statementOf? raw with
    | none => exact Nat.zero_add _
    | some statement => rfl

/-- A line of a source that assembles: its headings are names and address marks, and its statement
encodes. -/
structure Sound (raw : List Char) : Prop where
  headings : ∀ name ∈ (SourceLine.ofText raw).names, isHeading name = true
  encodes : ∀ statement ∈ statementOf? raw, ∃ labels bytes, statement.encode labels = .ok bytes

/-- The second lines say the same as the first ones. -/
structure Restates (ls ls' : List (List Char)) : Prop where
  headings : ∀ raw ∈ ls', ∀ name ∈ (SourceLine.ofText raw).names, isHeading name = true
  definitions : ∀ address, (definitions address ls).Perm (definitions address ls')
  statements : List.Forall₂ Replaces (ls.filterMap statementOf?) (ls'.filterMap statementOf?)

/-- More lines in front and behind make no difference. -/
theorem Restates.within (h : Restates ls ls') {before after : List (List Char)}
    (hbefore : ∀ raw ∈ before, Sound raw) (hafter : ∀ raw ∈ after, Sound raw) :
    Restates (before ++ (ls ++ after)) (before ++ (ls' ++ after)) where
  headings := List.forall_mem_append.mpr ⟨fun raw hraw => (hbefore raw hraw).headings,
    List.forall_mem_append.mpr ⟨h.headings, fun raw hraw => (hafter raw hraw).headings⟩⟩
  definitions := by
    intro address
    have hsize : (ls'.map lineSize).sum = (ls.map lineSize).sum := by
      rw [sum_lineSize_eq, sum_lineSize_eq, sum_size_of_replaces h.statements]
    rw [definitions_append, definitions_append, definitions_append, definitions_append, hsize]
    exact ((h.definitions _).append_right _).append_left _
  statements := by
    have hrefl : ∀ statements : List Statement, List.Forall₂ Replaces statements statements :=
      fun statements => List.forall₂_same.mpr fun statement _ => .refl statement
    rw [List.filterMap_append, List.filterMap_append, List.filterMap_append, List.filterMap_append]
    exact List.rel_append (hrefl _) (List.rel_append h.statements (hrefl _))

/-! ## Both passes -/

/-- Lines that assemble to a program. -/
def Accepted (ls : List (List Char)) (program : List UInt8) : Prop :=
  ∃ layout, layOut 1 programStart [] ls = .ok layout ∧
    layout.stop - programStart ≤ maxProgramSize ∧ Encodes layout.labels layout.placed program

theorem Accepted.restate (h : Accepted ls program) (hrestates : Restates ls ls') :
    Accepted ls' program := by
  obtain ⟨layout, hlayout, hsize, hencodes⟩ := h
  have hdefinitions := hrestates.definitions programStart
  have hlabels := labels_of_layOut hlayout
  obtain ⟨-, hdistinct⟩ := (exists_layOut_iff distinct_nil).mp ⟨layout, hlayout⟩
  rw [List.append_nil] at hlabels hdistinct
  -- The labels are the same in another order, so the first pass accepts them too.
  have hperm : (Assembly.definitions programStart ls).reverse.Perm
      (Assembly.definitions programStart ls').reverse :=
    (List.reverse_perm _).trans (hdefinitions.trans (List.reverse_perm _).symm)
  have hdistinct' : Distinct ((Assembly.definitions programStart ls').reverse ++ []) := by
    rw [List.append_nil]
    exact (hperm.map Prod.fst).nodup hdistinct
  obtain ⟨layout', hlayout'⟩ : ∃ layout', layOut 1 programStart [] ls' = .ok layout' :=
    (exists_layOut_iff distinct_nil).mpr ⟨hrestates.headings, hdistinct'⟩
  have hlabels' := labels_of_layOut hlayout'
  rw [List.append_nil] at hlabels'
  have hlookup : ∀ name, layout.labels.lookup name = layout'.labels.lookup name := by
    rw [hlabels, hlabels']
    exact lookup_eq_of_perm hperm hdistinct
  obtain ⟨hstop, hplaced⟩ := stop_of_layOut hlayout
  obtain ⟨hstop', hplaced'⟩ := stop_of_layOut hlayout'
  have hsame : layout'.stop = layout.stop := by
    rw [hstop, hstop', sum_lineSize_eq, sum_lineSize_eq, sum_size_of_replaces hrestates.statements]
  refine ⟨layout', hlayout', hsame ▸ hsize, hencodes.replace hlookup ?_⟩
  rw [hplaced, hplaced']
  exact hrestates.statements

theorem Accepted.sound (h : Accepted ls program) : ∀ raw ∈ ls, Sound raw := by
  obtain ⟨layout, hlayout, -, hencodes⟩ := h
  obtain ⟨hheadings, -⟩ := (exists_layOut_iff distinct_nil).mp ⟨layout, hlayout⟩
  obtain ⟨-, hplaced⟩ := stop_of_layOut hlayout
  obtain ⟨-, hencoded⟩ := hencodes.eq_flatMap_bytes
  refine fun raw hraw => ⟨hheadings raw hraw, fun statement hstatement => ?_⟩
  have hmem : statement ∈ ls.filterMap statementOf? :=
    List.mem_filterMap.mpr ⟨raw, hraw, hstatement⟩
  rw [← hplaced] at hmem
  obtain ⟨p, hp, rfl⟩ := List.mem_map.mp hmem
  exact ⟨_, _, hencoded p hp⟩

end ChipEight.Assembly
