/-!
# Instruction words

An instruction is a word of four hexadecimal digits. Its operands overlap: the last two digits are
also a byte, the last three an address.
-/

namespace ChipEight

/-- The last hexadecimal digit of a number. -/
def lastDigit (n : Nat) : Fin 16 := ⟨n % 16, Nat.mod_lt n (by decide)⟩

/-- Digit `i` of a word, digit 0 being the last. -/
def digitAt (w : UInt16) (i : Nat) : Fin 16 :=
  ⟨w.toNat >>> (4 * i) % 16, Nat.mod_lt _ (by decide)⟩

/-- The operands that a word can hold. -/
structure Operands where
  /-- The second digit, naming a register. -/
  x : Fin 16
  /-- The third digit, naming a register. -/
  y : Fin 16
  /-- The last digit. -/
  low : Fin 16
  /-- The last two digits. -/
  byte : UInt8
  /-- The last three digits. -/
  address : UInt16
  deriving DecidableEq, Repr

/-- The operands of a word. -/
def Operands.ofWord (w : UInt16) : Operands :=
  { x := digitAt w 2
    y := digitAt w 1
    low := digitAt w 0
    byte := UInt8.ofNat (w.toNat % 256)
    address := UInt16.ofNat (w.toNat % 4096) }

/-- A word is made of its digits. -/
theorem toNat_eq_digits (w : UInt16) :
    w.toNat = 4096 * (digitAt w 3).val + 256 * (digitAt w 2).val + 16 * (digitAt w 1).val +
      (digitAt w 0).val := by
  have h := w.toNat_lt
  simp only [digitAt]
  omega

/-- Addresses in words have twelve bits. -/
theorem Operands.toNat_address_ofWord (w : UInt16) :
    (Operands.ofWord w).address.toNat = w.toNat % 4096 := by
  simp only [ofWord, UInt16.toNat_ofNat']
  omega

end ChipEight
