/-!
# Random bytes

A source of random bytes is a stream of them and the number of those drawn so far. The stream of a
seed is made of the low bytes of the words of a ChaCha key stream with twelve rounds. The key is
made from the seed of 64 bits by a linear congruential generator whose states are folded to 32 bits.
-/

namespace ChipEight

/-- A source of random bytes. -/
structure Noise where
  /-- The bytes that are drawn, one after another. -/
  stream : Nat → UInt8 := fun _ => 0
  /-- How many bytes were drawn. -/
  drawn : Nat := 0
  deriving Inhabited

namespace Noise

/-! ## Drawing -/

/-- Draws the next byte. -/
def next (n : Noise) : UInt8 × Noise := (n.stream n.drawn, { n with drawn := n.drawn + 1 })

/-! ## The key -/

/-- The next state of the generator that makes the key. -/
def advance (s : UInt64) : UInt64 := s * 6364136223846793005 + 11634580027462260723

/-- A word rotated to the right. -/
def rotateRight (w : UInt32) (n : UInt32) : UInt32 := (w >>> n) ||| (w <<< ((32 - n) % 32))

/-- A word rotated to the left. -/
def rotateLeft (w : UInt32) (n : UInt32) : UInt32 := (w <<< n) ||| (w >>> ((32 - n) % 32))

/-- A state of the generator folded to a word. -/
def fold (s : UInt64) : UInt32 :=
  rotateRight (((s >>> 18) ^^^ s) >>> 27).toUInt32 (s >>> 59).toUInt32

/-- The `n` words that follow a state. -/
def keyFrom (s : UInt64) : Nat → List UInt32
  | 0 => []
  | n + 1 => fold (advance s) :: keyFrom (advance s) n

/-! ## The key stream -/

/-- The sixteen words of a block. -/
abbrev Block := Vector UInt32 16

/-- Mixes four words of a block. -/
def quarterRound (k : Block) (a b c d : Fin 16) : Block :=
  let k := k.setIfInBounds a (k.get a + k.get b)
  let k := k.setIfInBounds d (rotateLeft (k.get d ^^^ k.get a) 16)
  let k := k.setIfInBounds c (k.get c + k.get d)
  let k := k.setIfInBounds b (rotateLeft (k.get b ^^^ k.get c) 12)
  let k := k.setIfInBounds a (k.get a + k.get b)
  let k := k.setIfInBounds d (rotateLeft (k.get d ^^^ k.get a) 8)
  let k := k.setIfInBounds c (k.get c + k.get d)
  k.setIfInBounds b (rotateLeft (k.get b ^^^ k.get c) 7)

/-- Mixes the columns, then the diagonals. -/
def doubleRound (k : Block) : Block :=
  let k := quarterRound k 0 4 8 12
  let k := quarterRound k 1 5 9 13
  let k := quarterRound k 2 6 10 14
  let k := quarterRound k 3 7 11 15
  let k := quarterRound k 0 5 10 15
  let k := quarterRound k 1 6 11 12
  let k := quarterRound k 2 7 8 13
  quarterRound k 3 4 9 14

/-- The words that start every block: the text "expand 32-byte k". -/
def constants : List UInt32 := [0x61707865, 0x3320646E, 0x79622D32, 0x6B206574]

/-- A block before the rounds: constants, key, and the block's number in two words. -/
def initial (seed : UInt64) (number : Nat) : Block :=
  let words := (constants ++ keyFrom seed 8 ++
    [UInt32.ofNat number, UInt32.ofNat (number >>> 32), 0, 0]).toArray
  Vector.ofFn fun i => words[i.val]?.getD 0

/-- A block of the key stream: twelve rounds, then the words from before them added. -/
def block (seed : UInt64) (number : Nat) : Block :=
  let start := initial seed number
  let mixed := Nat.repeat doubleRound 6 start
  Vector.ofFn fun i => mixed.get i + start.get i

/-- Byte number `k` of the stream of a seed. -/
def byte (seed : UInt64) (k : Nat) : UInt8 :=
  ((block seed (k / 16)).get (Fin.ofNat 16 k)).toUInt8

/-- The source of a seed, from which nothing was drawn. -/
def ofSeed (seed : UInt64) : Noise := { stream := byte seed }

end Noise
end ChipEight
