import Mathlib.Data.List.Nodup
import Mathlib.Data.List.Perm.Basic
import ChipEight.Proofs.Source.MoreLabels

/-!
# What the first pass accepts

The first pass defines labels one after another and refuses a label that it knows already. Said for
all lines at once: it accepts lines when what stands before their colons are names and address
marks, and no label is defined twice (`exists_layOut_iff`). What it finds are the labels of the
lines, each at the address of its line (`labels_of_layOut`). As no label is there twice, their order
does not matter to the second pass (`lookup_eq_of_perm`).
-/

namespace ChipEight.Assembly

open Text

variable {labels defined more : Labels} {line address : Nat} {layout : Layout}
  {names : List (List Char)} {ls : List (List Char)}

/-! ## Tables without repetition -/

/-- No label is there twice. -/
def Distinct (labels : Labels) : Prop := (labels.map Prod.fst).Nodup

theorem distinct_nil : Distinct [] := List.nodup_nil

theorem Distinct.of_append {front : Labels} (h : Distinct (front ++ labels)) : Distinct labels := by
  rw [Distinct, List.map_append] at h
  exact List.Nodup.of_append_right h

theorem mem_of_lookup {name : List Char} {a : Nat} (h : labels.lookup name = some a) :
    (name, a) ∈ labels := by
  obtain ⟨before, after, rfl, -⟩ := List.lookup_eq_some_iff.mp h
  exact List.mem_append_right _ List.mem_cons_self

theorem lookup_eq_none_iff {name : List Char} :
    labels.lookup name = none ↔ name ∉ labels.map Prod.fst := by
  rw [List.lookup_eq_none_iff]
  simp only [bne_iff_ne, List.mem_map, not_exists, not_and]
  exact forall₂_congr fun _ _ => ne_comm

theorem Distinct.lookup_eq_some_iff (h : Distinct labels) {name : List Char} {a : Nat} :
    labels.lookup name = some a ↔ (name, a) ∈ labels := by
  refine ⟨mem_of_lookup, fun hmem => ?_⟩
  obtain ⟨before, after, rfl⟩ := List.append_of_mem hmem
  have hnot : name ∉ before.map Prod.fst := by
    rw [Distinct, List.map_append, List.map_cons] at h
    exact fun hm => List.disjoint_of_nodup_append h hm List.mem_cons_self
  rw [List.lookup_append, lookup_eq_none_iff.mpr hnot, Option.none_or, List.lookup_cons_self]

/-- In tables of the same labels, whatever their order, every name has the same address. -/
theorem lookup_eq_of_perm (h : labels.Perm more) (hdistinct : Distinct labels) (name : List Char) :
    labels.lookup name = more.lookup name := by
  have hmore : Distinct more := (h.map Prod.fst).nodup hdistinct
  refine Option.ext fun a => ?_
  rw [hdistinct.lookup_eq_some_iff, hmore.lookup_eq_some_iff, h.mem_iff]

/-! ## One line -/

/-- What may stand before a colon: the address mark of a listing, or the name of a label. -/
def isHeading (name : List Char) : Bool := isAddressMark name || isName name

/-- The labels among the names before colons, at the address of their line. -/
def namesAt (address : Nat) (names : List (List Char)) : Labels :=
  (names.filter fun name => !isAddressMark name).map (·, address)

theorem namesAt_append (names others : List (List Char)) :
    namesAt address (names ++ others) = namesAt address names ++ namesAt address others := by
  rw [namesAt, List.filter_append, List.map_append, namesAt, namesAt]

theorem namesAt_perm {others : List (List Char)} (h : names.Perm others) :
    (namesAt address names).Perm (namesAt address others) :=
  (h.filter _).map _

theorem namesAt_cons_of_mark {first : List Char} (h : isAddressMark first = true)
    (rest : List (List Char)) : namesAt address (first :: rest) = namesAt address rest := by
  rw [namesAt, List.filter_cons_of_neg (by simp [h]), namesAt]

theorem namesAt_cons_of_not_mark {first : List Char} (h : isAddressMark first = false)
    (rest : List (List Char)) :
    namesAt address (first :: rest) = (first, address) :: namesAt address rest := by
  rw [namesAt, List.filter_cons_of_pos (by simp [h]), List.map_cons, namesAt]

/-- The labels of a line go in front of the table. -/
theorem labels_of_define (h : define line address labels names = .ok defined) :
    defined = (namesAt address names).reverse ++ labels := by
  induction names generalizing labels with
  | nil =>
    cases h
    rfl
  | cons first rest ih =>
    obtain ⟨hmark, h⟩ | ⟨hmark, -, -, h⟩ := define_cons_cases h
    · rw [namesAt_cons_of_mark hmark, ih h]
    · rw [namesAt_cons_of_not_mark hmark, ih h, List.reverse_cons, List.append_assoc]
      rfl

theorem exists_define_iff (hlabels : Distinct labels) :
    (∃ defined, define line address labels names = .ok defined) ↔
      (∀ name ∈ names, isHeading name = true) ∧
        Distinct ((namesAt address names).reverse ++ labels) := by
  induction names generalizing labels with
  | nil => exact iff_of_true ⟨labels, rfl⟩ ⟨fun _ h => absurd h List.not_mem_nil, hlabels⟩
  | cons first rest ih =>
    rw [List.forall_mem_cons, define]
    by_cases hmark : isAddressMark first = true
    · have hheading : isHeading first = true := by rw [isHeading, hmark, Bool.true_or]
      rw [if_pos hmark, ih hlabels, namesAt_cons_of_mark hmark, and_iff_right hheading]
    · have hmark' := eq_false_of_ne_true hmark
      rw [if_neg hmark, namesAt_cons_of_not_mark hmark', List.reverse_cons, List.append_assoc,
        List.singleton_append, isHeading, hmark', Bool.false_or]
      by_cases hname : isName first = true
      · rw [if_neg (by simp [hname]), and_iff_right hname]
        cases hlookup : labels.lookup first with
        | none =>
          have hnew : Distinct ((first, address) :: labels) :=
            List.nodup_cons.mpr ⟨lookup_eq_none_iff.mp hlookup, hlabels⟩
          exact ih hnew
        | some a =>
          -- The label would be there twice.
          refine iff_of_false (by rintro ⟨_, ⟨⟩⟩) fun hrest => ?_
          have hknown : first ∈ labels.map Prod.fst :=
            List.mem_map.mpr ⟨_, mem_of_lookup hlookup, rfl⟩
          exact (List.nodup_cons.mp hrest.2.of_append).1 hknown
      · rw [if_pos (by simp [hname])]
        exact iff_of_false (by rintro ⟨_, ⟨⟩⟩) fun h => hname h.1.1

/-! ## All lines -/

/-- The labels that lines define from an address on, in the order of the lines. -/
def definitions (address : Nat) : List (List Char) → Labels
  | [] => []
  | raw :: rest =>
    namesAt address (SourceLine.ofText raw).names ++ definitions (address + lineSize raw) rest

theorem definitions_append (address : Nat) (before after : List (List Char)) :
    definitions address (before ++ after) =
      definitions address before ++ definitions (address + (before.map lineSize).sum) after := by
  induction before generalizing address with
  | nil => rfl
  | cons raw rest ih =>
    rw [List.cons_append, definitions, ih, definitions, List.append_assoc, List.map_cons,
      List.sum_cons, Nat.add_assoc]

theorem labels_of_layOut (h : layOut line address labels ls = .ok layout) :
    layout.labels = (definitions address ls).reverse ++ labels := by
  induction ls generalizing line address labels layout with
  | nil =>
    cases h
    rfl
  | cons raw rest ih =>
    obtain ⟨own, later, hdefine, hlater, hlabels, -⟩ := layOut_cons h
    rw [hlabels, ih hlater, labels_of_define hdefine, definitions, List.reverse_append,
      List.append_assoc]

/-- The first pass accepts lines whose labels are names, with no label defined twice. -/
theorem exists_layOut_iff (hlabels : Distinct labels) :
    (∃ layout, layOut line address labels ls = .ok layout) ↔
      (∀ raw ∈ ls, ∀ name ∈ (SourceLine.ofText raw).names, isHeading name = true) ∧
        Distinct ((definitions address ls).reverse ++ labels) := by
  induction ls generalizing line address labels with
  | nil => exact iff_of_true ⟨_, rfl⟩ ⟨fun _ h => absurd h List.not_mem_nil, hlabels⟩
  | cons raw rest ih =>
    rw [List.forall_mem_cons, definitions, List.reverse_append, List.append_assoc]
    constructor
    · rintro ⟨layout, h⟩
      obtain ⟨own, later, hdefine, hlater, -⟩ := layOut_cons h
      obtain ⟨hheadings, hown⟩ := (exists_define_iff hlabels).mp ⟨own, hdefine⟩
      rw [labels_of_define hdefine] at hlater
      obtain ⟨hrest, hall⟩ := (ih hown).mp ⟨later, hlater⟩
      exact ⟨⟨hheadings, hrest⟩, hall⟩
    · rintro ⟨⟨hheadings, hrest⟩, hall⟩
      have hown : Distinct ((namesAt address (SourceLine.ofText raw).names).reverse ++ labels) :=
        hall.of_append
      obtain ⟨own, hdefine⟩ := (exists_define_iff hlabels).mpr ⟨hheadings, hown⟩
      obtain ⟨later, hlater⟩ := (ih hown).mpr ⟨hrest, hall⟩
      rw [← labels_of_define hdefine] at hlater
      rw [layOut_eq_bind, hdefine]
      exact ⟨_, congrArg (Except.map _) hlater⟩

end ChipEight.Assembly
