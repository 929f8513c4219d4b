/-!
# Operations

What an instruction asks the machine to do, apart from its operands. One operation is one rule of
execution.
-/

namespace ChipEight

/-- The forty-six operations of the three dialects. -/
inductive Operation
  /-- Blank the screen. -/
  | clearScreen
  /-- Take the program counter from the stack. -/
  | ret
  /-- Move the picture down by rows. -/
  | scrollDown
  /-- Move the picture up by rows. -/
  | scrollUp
  /-- Move the picture right by four pixels. -/
  | scrollRight
  /-- Move the picture left by four pixels. -/
  | scrollLeft
  /-- Stop the machine. -/
  | exit
  /-- Show 64 by 32 pixels. -/
  | lowResolution
  /-- Show 128 by 64 pixels. -/
  | highResolution
  /-- Go to an address. -/
  | jump
  /-- Go to an address and keep the way back on the stack. -/
  | call
  /-- Skip if a register equals a byte. -/
  | skipIfByte
  /-- Skip if a register differs from a byte. -/
  | skipUnlessByte
  /-- Skip if two registers are equal. -/
  | skipIfRegister
  /-- Store a range of registers. -/
  | saveRange
  /-- Load a range of registers. -/
  | loadRange
  /-- Put a byte into a register. -/
  | setByte
  /-- Add a byte to a register. -/
  | addByte
  /-- Copy a register. -/
  | copyRegister
  /-- Bitwise or of two registers. -/
  | orRegister
  /-- Bitwise and of two registers. -/
  | andRegister
  /-- Bitwise exclusive or of two registers. -/
  | xorRegister
  /-- Add a register. -/
  | addRegister
  /-- Subtract a register. -/
  | subtract
  /-- Halve. -/
  | shiftRight
  /-- Subtract from a register. -/
  | subtractFrom
  /-- Double. -/
  | shiftLeft
  /-- Skip if two registers differ. -/
  | skipUnlessRegister
  /-- Put an address into the index register. -/
  | setIndex
  /-- Go to an address plus a register. -/
  | jumpOffset
  /-- Put a random byte, masked, into a register. -/
  | random
  /-- Draw a sprite. -/
  | drawSprite
  /-- Skip if a key is down. -/
  | skipIfKey
  /-- Skip if a key is up. -/
  | skipUnlessKey
  /-- Read the delay timer. -/
  | readDelay
  /-- Read a key, waiting for one if none is down. -/
  | readKey
  /-- Set the delay timer. -/
  | setDelay
  /-- Set the sound timer. -/
  | setSound
  /-- Add a register to the index register. -/
  | addIndex
  /-- Point the index register at a small glyph. -/
  | smallGlyph
  /-- Point the index register at a big glyph. -/
  | bigGlyph
  /-- Store the decimal digits of a register. -/
  | storeDecimal
  /-- Store the first registers. -/
  | storeRegisters
  /-- Load the first registers. -/
  | loadRegisters
  /-- Copy the first registers to the flag registers. -/
  | storeFlags
  /-- Copy the flag registers to the first registers. -/
  | loadFlags
  deriving DecidableEq, Repr

end ChipEight
