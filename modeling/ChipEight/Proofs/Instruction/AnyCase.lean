import ChipEight.Proofs.Instruction.Encoding

/-!
# Instructions in either case

A mnemonic, a register and a literal are read in either case. So an instruction encodes to the same
word when letters of its mnemonic change their case, and letters of the operands that its form reads
as registers or literals (`encode_of_sameLetters`). Which form that is does not depend on the
labels.
-/

namespace ChipEight

open Text Assembly

variable {labels more : Labels} {s t mnemonic other : List Char}
  {operands others : List (List Char)}

/-! ## Slots -/

/-- Whether a slot reads its operand in either case: a register or a literal. -/
def Slot.ignoresCase : Slot → Bool
  | .registerX | .registerY | .literal _ => true
  | .byte | .nibble | .count | .address => false

theorem readSlot_of_ignoresCase {slot : Slot} (hslot : slot.ignoresCase = true)
    (h : lower t = lower s) : readSlot labels t slot = readSlot labels s slot := by
  cases slot with
  | registerX | registerY =>
    rw [readSlot, readSlot, ← register?_lower t, h, register?_lower]
  | literal text => rw [readSlot, readSlot, sameLetters, sameLetters, h]
  | byte | nibble | count | address => cases hslot

theorem readSlots_of_ignoresCase {slots : List Slot}
    (h : ∀ i : Nat, others[i]? = operands[i]? ∨
      ∃ slot, slots[i]? = some slot ∧ slot.ignoresCase = true)
    (hlower : others.map lower = operands.map lower) :
    readSlots labels slots others = readSlots labels slots operands := by
  induction slots generalizing operands others with
  | nil =>
    have hsame : others = operands := by
      refine List.ext_getElem? fun i => (h i).resolve_right ?_
      rintro ⟨slot, hslot, -⟩
      cases hslot
    rw [hsame]
  | cons slot slots ih =>
    match others, operands, h, hlower with
    | [], [], _, _ => rfl
    | t :: others, s :: operands, h, hlower =>
      obtain ⟨hts, hrest⟩ := List.cons.inj hlower
      have hfirst : readSlot labels t slot = readSlot labels s slot := by
        obtain hsame | ⟨own, hown, hcase⟩ := h 0
        · rw [Option.some.inj hsame]
        · obtain rfl := Option.some.inj hown
          exact readSlot_of_ignoresCase hcase hts
      have hlater := ih (fun i => h (i + 1)) hrest
      simp only [readSlots, hfirst, hlater]

/-! ## The form that fits -/

/-- Whether a slot reads a text does not depend on the labels. -/
theorem isSome_readSlot (labels more : Labels) (s : List Char) (slot : Slot) :
    (readSlot labels s slot).isSome = (readSlot more s slot).isSome := by
  cases slot with
  | address =>
    rw [readSlot, readSlot, address?, address?]
    cases numberUpTo? 0xFFF s with
    | some n => rfl
    | none =>
      dsimp only
      split
      · cases labels.lookup s <;> cases more.lookup s <;> rfl
      · rfl
  | _ => rfl

theorem isSome_readSlots_cons (slot : Slot) (slots : List Slot) (s : List Char)
    (rest : List (List Char)) : (readSlots labels (slot :: slots) (s :: rest)).isSome =
      ((readSlot labels s slot).isSome && (readSlots labels slots rest).isSome) := by
  rw [readSlots]
  rcases readSlot labels s slot with _ | _ | _ <;>
    rcases readSlots labels slots rest with _ | _ | _ <;> rfl

theorem isSome_readSlots (labels more : Labels) : ∀ (slots : List Slot)
    (operands : List (List Char)),
    (readSlots labels slots operands).isSome = (readSlots more slots operands).isSome
  | [], [] | [], _ :: _ | _ :: _, [] => rfl
  | slot :: slots, s :: rest => by
    rw [isSome_readSlots_cons, isSome_readSlots_cons, isSome_readSlot labels more,
      isSome_readSlots labels more slots rest]

theorem formsTaking_eq (labels more : Labels) (mnemonic : List Char)
    (operands : List (List Char)) :
    formsTaking labels mnemonic operands = formsTaking more mnemonic operands := by
  refine List.filter_congr fun f _ => ?_
  rw [encodeForm, encodeForm, Option.isSome_map, Option.isSome_map, isSome_readSlots labels more]

/-! ## Instructions -/

/-- An instruction keeps its word when letters change their case in its mnemonic, and in operands
that it reads as registers or literals. -/
theorem encode_of_sameLetters {w : UInt16} (hword : encode labels mnemonic operands = .ok w)
    (hmnemonic : lower other = lower mnemonic) (hlower : others.map lower = operands.map lower)
    (h : ∀ i : Nat, others[i]? = operands[i]? ∨ ∃ f ∈ formsTaking [] mnemonic operands,
      ∃ slot, f.slots[i]? = some slot ∧ slot.ignoresCase = true) :
    encode labels other others = .ok w := by
  obtain ⟨f, hf, hencode⟩ := exists_encodeForm_of_encode hword
  obtain ⟨htable, hsame⟩ := List.mem_filter.mp hf
  have hsome : (encodeForm labels operands f).isSome := by rw [hencode]; rfl
  have hslots : ∀ i : Nat, others[i]? = operands[i]? ∨
      ∃ slot, f.slots[i]? = some slot ∧ slot.ignoresCase = true := by
    refine fun i => (h i).imp_right ?_
    rintro ⟨g, hg, slot, hslot⟩
    rw [formsTaking_eq [] labels] at hg
    obtain ⟨hg, hgo⟩ := List.mem_filter.mp hg
    rw [eq_of_mem_formsOf hf hg hsome hgo]
    exact ⟨slot, hslot⟩
  refine encode_of_encodeForm htable ?_ ?_
  · rw [sameLetters_iff, hmnemonic]
    exact sameLetters_iff.mp hsame
  · rw [← hencode, encodeForm, encodeForm, readSlots_of_ignoresCase hslots hlower]

end ChipEight
