/-!
# Programs

A program is a row of bytes that is placed at `0x200` in a memory of 4096 bytes. Its words are its
bytes in pairs, high byte first.
-/

namespace ChipEight

/-- The bytes of memory. -/
def memorySize : Nat := 4096

/-- The address of the first byte of a program. -/
def programStart : Nat := 0x200

/-- The bytes that the longest program has. -/
def maxProgramSize : Nat := memorySize - programStart

/-- The word made of two bytes, high byte first. -/
def joinBytes (high low : UInt8) : UInt16 := UInt16.ofNat (256 * high.toNat + low.toNat)

/-- The two bytes of a word, high byte first. -/
def splitWord (w : UInt16) : List UInt8 := [UInt8.ofNat (w.toNat / 256), UInt8.ofNat w.toNat]

theorem toNat_joinBytes (high low : UInt8) :
    (joinBytes high low).toNat = 256 * high.toNat + low.toNat := by
  have hh := high.toNat_lt
  have hl := low.toNat_lt
  rw [joinBytes, UInt16.toNat_ofNat']
  omega

theorem splitWord_joinBytes (high low : UInt8) : splitWord (joinBytes high low) = [high, low] := by
  have hh := high.toNat_lt
  have hl := low.toNat_lt
  simp only [splitWord, toNat_joinBytes, List.cons.injEq, and_true]
  constructor
  · apply UInt8.toNat_inj.mp
    simp only [UInt8.toNat_ofNat']
    omega
  · apply UInt8.toNat_inj.mp
    simp only [UInt8.toNat_ofNat']
    omega

/-- The words of a program. A last byte without a partner belongs to no word. -/
def words : List UInt8 → List UInt16
  | high :: low :: rest => joinBytes high low :: words rest
  | _ => []

/-- The last byte of a program of odd length. -/
def oddByte? : List UInt8 → Option UInt8
  | _ :: _ :: rest => oddByte? rest
  | [byte] => some byte
  | [] => none

/-- A program is its words and its odd byte. -/
theorem flatMap_splitWord_words (program : List UInt8) :
    (words program).flatMap splitWord ++ (oddByte? program).toList = program := by
  induction program using words.induct with
  | case1 high low rest ih =>
    simp only [words, oddByte?, List.flatMap_cons, splitWord_joinBytes, List.append_assoc, ih]
    rfl
  | case2 program h =>
    match program, h with
    | [], _ => rfl
    | [byte], _ => rfl
    | high :: low :: rest, h => exact absurd rfl (h high low rest)

end ChipEight
