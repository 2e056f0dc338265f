/-
# `Chip8.Glyph` — the built-in digits

Every machine holds pictures of the sixteen digits, five rows of four pixels
each, from address `0x50` on.  A row is the upper half of a byte.
-/

namespace Chip8.Glyph

/-- Where the pictures begin. -/
def base : Nat := 0x50

def height : Nat := 5

/-- All rows, from the digit 0 to the digit F. -/
def table : List UInt8 := [
  0xF0, 0x90, 0x90, 0x90, 0xF0,
  0x20, 0x60, 0x20, 0x20, 0x70,
  0xF0, 0x10, 0xF0, 0x80, 0xF0,
  0xF0, 0x10, 0xF0, 0x10, 0xF0,
  0x90, 0x90, 0xF0, 0x10, 0x10,
  0xF0, 0x80, 0xF0, 0x10, 0xF0,
  0xF0, 0x80, 0xF0, 0x90, 0xF0,
  0xF0, 0x10, 0x20, 0x40, 0x40,
  0xF0, 0x90, 0xF0, 0x90, 0xF0,
  0xF0, 0x90, 0xF0, 0x10, 0xF0,
  0xF0, 0x90, 0xF0, 0x90, 0x90,
  0xE0, 0x90, 0xE0, 0x90, 0xE0,
  0xF0, 0x80, 0x80, 0x80, 0xF0,
  0xE0, 0x90, 0x90, 0x90, 0xE0,
  0xF0, 0x80, 0xF0, 0x80, 0xF0,
  0xF0, 0x80, 0xF0, 0x80, 0x80]

/-- The picture of a digit; only the low half of the byte counts. -/
def rows (digit : UInt8) : List UInt8 :=
  (table.drop (height * (digit.toNat % 16))).take height

def address (digit : UInt8) : Nat :=
  base + height * (digit.toNat % 16)

end Chip8.Glyph
