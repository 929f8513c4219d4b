import Mathlib.Algebra.Ring.Parity
import ChipEight.Switches

/-!
# Switch letters by parity

A letter flips its switch, so only the parity of its number counts. `Switches.ofCounts` says so for
all five at once, and `Switches.parse` reads a text of letters as just that: their order does not
matter, and what two texts switch together is what one of them switches and not the other.

## The invariant

The reader keeps the switches that the letters behind it have flipped. So the induction is on the
letters that are left, for any switches kept (`flipAll_append`).
-/

namespace ChipEight
namespace Switches

open Text

variable {q : Switches} {s t : List Char} {c : Char}

/-! ## Letters and parities -/

/-- The letters of the switches. -/
def alphabet : List Char := ['b', 'd', 'j', 'l', 's']

/-- The switches whose letters occur an odd number of times in a text. -/
def ofCounts (s : List Char) : Switches where
  clearFlag := decide (Odd (s.count 'b'))
  clipSprites := decide (Odd (s.count 'd'))
  jumpByDigit := decide (Odd (s.count 'j'))
  moveIndex := decide (Odd (s.count 'l'))
  shiftInPlace := decide (Odd (s.count 's'))

/-- The switches that are on in one of two settings and off in the other. -/
def xor (q r : Switches) : Switches where
  clearFlag := q.clearFlag ^^ r.clearFlag
  clipSprites := q.clipSprites ^^ r.clipSprites
  jumpByDigit := q.jumpByDigit ^^ r.jumpByDigit
  moveIndex := q.moveIndex ^^ r.moveIndex
  shiftInPlace := q.shiftInPlace ^^ r.shiftInPlace

theorem xor_assoc (q r p : Switches) : (q.xor r).xor p = q.xor (r.xor p) := by
  simp only [xor, Bool.xor_assoc]

theorem default_xor (q : Switches) : xor {} q = q := by
  simp only [xor, Bool.false_xor]

theorem xor_ofCounts_nil (q : Switches) : q.xor (ofCounts []) = q := by
  simp [xor, ofCounts]

/-- A sum is odd if just one of its parts is. -/
theorem decide_odd_add (m n : Nat) :
    decide (Odd (m + n)) = (decide (Odd m) ^^ decide (Odd n)) := by
  simp only [Nat.odd_iff]
  obtain hm | hm := Nat.mod_two_eq_zero_or_one m <;>
    obtain hn | hn := Nat.mod_two_eq_zero_or_one n <;>
    simp [Nat.add_mod, hm, hn]

theorem ofCounts_append (s t : List Char) : ofCounts (s ++ t) = (ofCounts s).xor (ofCounts t) := by
  simp only [ofCounts, xor, List.count_append, decide_odd_add]

theorem ofCounts_perm (h : s.Perm t) : ofCounts s = ofCounts t := by
  simp only [ofCounts, h.count_eq]

theorem mem_alphabet_iff : c ∈ alphabet ↔ c = 'b' ∨ c = 'd' ∨ c = 'j' ∨ c = 'l' ∨ c = 's' := by
  simp only [alphabet, List.mem_cons, List.not_mem_nil, or_false]

theorem isBlank_of_letter (h : c ∈ alphabet) : isBlank c = false := by
  obtain rfl | rfl | rfl | rfl | rfl := mem_alphabet_iff.mp h <;> rfl

theorem trim_of_letters (h : ∀ c ∈ s, c ∈ alphabet) : trim s = s :=
  trim_eq_self fun c hc => isBlank_of_letter (h c hc)

/-! ## Flipping -/

theorem flip_of_letter (h : c ∈ alphabet) (q : Switches) :
    q.flip c = some (q.xor (ofCounts [c])) := by
  obtain rfl | rfl | rfl | rfl | rfl := mem_alphabet_iff.mp h <;> simp [flip, xor, ofCounts]

theorem flip_of_foreign (h : c ∉ alphabet) (q : Switches) : q.flip c = none := by
  simp only [mem_alphabet_iff, not_or] at h
  obtain ⟨hb, hd, hj, hl, hs⟩ := h
  unfold flip
  split
  · exact absurd rfl hb
  · exact absurd rfl hd
  · exact absurd rfl hj
  · exact absurd rfl hl
  · exact absurd rfl hs
  · rfl

/-- Letters are flipped by their parities, whatever follows them. -/
theorem flipAll_append (h : ∀ c ∈ s, c ∈ alphabet) (q : Switches) (t : List Char) :
    q.flipAll (s ++ t) = (q.xor (ofCounts s)).flipAll t := by
  induction s generalizing q with
  | nil => rw [List.nil_append, xor_ofCounts_nil]
  | cons c rest ih =>
    obtain ⟨hc, hrest⟩ := List.forall_mem_cons.mp h
    have hcounts : ofCounts (c :: rest) = (ofCounts [c]).xor (ofCounts rest) :=
      ofCounts_append [c] rest
    rw [List.cons_append, flipAll, flip_of_letter hc, hcounts, ← xor_assoc]
    exact ih hrest _

theorem flipAll_of_letters (h : ∀ c ∈ s, c ∈ alphabet) (q : Switches) :
    q.flipAll s = .ok (q.xor (ofCounts s)) := by
  have hall := flipAll_append h q []
  rwa [List.append_nil] at hall

theorem flipAll_of_foreign (h : ∀ d ∈ s, d ∈ alphabet) (hc : c ∉ alphabet) (q : Switches)
    (t : List Char) : q.flipAll (s ++ c :: t) = .error (.unknownSwitch c) := by
  rw [flipAll_append h, flipAll, flip_of_foreign hc]

/-! ## Reading -/

/-- A text with something else than letters has a first such character. -/
theorem exists_first_foreign (h : ¬∀ c ∈ s, c ∈ alphabet) :
    ∃ before c after, s = before ++ c :: after ∧ (∀ d ∈ before, d ∈ alphabet) ∧
      c ∉ alphabet := by
  have hfound : (s.find? (· ∉ alphabet)).isSome := by
    simpa only [List.find?_isSome, decide_eq_true_eq, not_forall, exists_prop] using h
  obtain ⟨c, hc⟩ := Option.isSome_iff_exists.mp hfound
  obtain ⟨hforeign, before, after, heq, hbefore⟩ := List.find?_eq_some_iff_append.mp hc
  refine ⟨before, c, after, heq, fun d hd => ?_, of_decide_eq_true hforeign⟩
  simpa using hbefore d hd

theorem parse_of_letters (h : ∀ c ∈ trim s, c ∈ alphabet) : parse s = .ok (ofCounts (trim s)) := by
  rw [parse, flipAll_of_letters h, default_xor]

theorem parse_of_letters_only (h : ∀ c ∈ s, c ∈ alphabet) : parse s = .ok (ofCounts s) := by
  have hplain : trim s = s := trim_of_letters h
  have hread := parse_of_letters (s := s) (hplain.symm ▸ h)
  rwa [hplain] at hread

theorem parse_of_foreign {before after : List Char} (h : trim s = before ++ c :: after)
    (hbefore : ∀ d ∈ before, d ∈ alphabet) (hc : c ∉ alphabet) :
    parse s = .error (.unknownSwitch c) := by
  rw [parse, h, flipAll_of_foreign hbefore hc]

theorem parse_eq_ok_iff :
    parse s = .ok q ↔ (∀ c ∈ trim s, c ∈ alphabet) ∧ q = ofCounts (trim s) := by
  constructor
  · intro h
    by_cases hall : ∀ c ∈ trim s, c ∈ alphabet
    · rw [parse_of_letters hall] at h
      exact ⟨hall, (Except.ok.inj h).symm⟩
    · obtain ⟨before, c, after, heq, hbefore, hc⟩ := exists_first_foreign hall
      rw [parse_of_foreign heq hbefore hc] at h
      cases h
  · rintro ⟨hall, rfl⟩
    exact parse_of_letters hall

theorem parse_eq_error_iff {e : Failure} :
    parse s = .error e ↔ ∃ before c after, trim s = before ++ c :: after ∧
      (∀ d ∈ before, d ∈ alphabet) ∧ c ∉ alphabet ∧ e = .unknownSwitch c := by
  constructor
  · intro h
    have hforeign : ¬∀ c ∈ trim s, c ∈ alphabet := by
      intro hall
      rw [parse_of_letters hall] at h
      cases h
    obtain ⟨before, c, after, heq, hbefore, hc⟩ := exists_first_foreign hforeign
    rw [parse_of_foreign heq hbefore hc] at h
    exact ⟨before, c, after, heq, hbefore, hc, (Except.error.inj h).symm⟩
  · rintro ⟨before, c, after, heq, hbefore, hc, rfl⟩
    exact parse_of_foreign heq hbefore hc

/-- A text is read if there are only letters between the blanks around it, and then a switch is on
if its letter occurs an odd number of times. So the order of the letters does not matter, two texts
of letters in a row switch what just one of them does, and the letters of what was read are read as
the same again. Any other text is refused with the first character that is no letter. -/
theorem parse_by_parity (s : List Char) :
    (∀ q, parse s = .ok q ↔ (∀ c ∈ trim s, c ∈ alphabet) ∧ q = ofCounts (trim s)) ∧
    (∀ t q, (trim t).Perm (trim s) → parse s = .ok q → parse t = .ok q) ∧
    (∀ t, (∀ c ∈ s ++ t, c ∈ alphabet) →
      ∃ q r, parse s = .ok q ∧ parse t = .ok r ∧ parse (s ++ t) = .ok (q.xor r)) ∧
    (∀ q, parse s = .ok q → parse q.letters = .ok q) ∧
    ∀ e, parse s = .error e ↔ ∃ before c after, trim s = before ++ c :: after ∧
      (∀ d ∈ before, d ∈ alphabet) ∧ c ∉ alphabet ∧ e = .unknownSwitch c := by
  refine ⟨fun q => parse_eq_ok_iff, ?_, ?_, fun q _ => parse_letters q,
    fun e => parse_eq_error_iff⟩
  · intro t q hperm hs
    obtain ⟨hletters, rfl⟩ := parse_eq_ok_iff.mp hs
    refine parse_eq_ok_iff.mpr ⟨fun c hc => hletters c (hperm.mem_iff.mp hc), ?_⟩
    exact (ofCounts_perm hperm).symm
  · intro t hletters
    obtain ⟨hs, ht⟩ := List.forall_mem_append.mp hletters
    refine ⟨ofCounts s, ofCounts t, parse_of_letters_only hs, parse_of_letters_only ht, ?_⟩
    rw [parse_of_letters_only hletters, ofCounts_append]

/-- The same letters in another order, a letter that two texts have in common, and a text with two
foreign characters. -/
theorem parse_by_parity_shared :
    parse ['d', 'b', 's'] = .ok { clearFlag := true, clipSprites := true, shiftInPlace := true } ∧
    (∃ q r, parse ['b', 's', 'd'] = .ok q ∧ parse ['s'] = .ok r ∧
      parse ['b', 's', 'd', 's'] = .ok (q.xor r)) ∧
    parse [' ', 'b', 's', 'x', 'y'] = .error (.unknownSwitch 'x') := by
  refine ⟨?_, ?_, ?_⟩
  · exact (parse_by_parity ['\t', 'b', 's', 'd']).2.1 _ _ (by decide) rfl
  · exact (parse_by_parity ['b', 's', 'd']).2.2.1 ['s'] (by simp [alphabet])
  · exact ((parse_by_parity _).2.2.2.2 _).mpr
      ⟨['b', 's'], 'x', ['y'], rfl, by simp [alphabet], by decide, rfl⟩

end Switches
end ChipEight
