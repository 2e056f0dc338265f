/-
# `Chip8.Word` — a word and its fields

Instructions are words of sixteen bits, stored with the high byte first and
cut into fields at fixed places:

    bits   15..12   11..8   7..4   3..0
           kind     x       y      n
                            └─ nn ────┘
                    └─ nnn ───────────┘

`x` and `y` name registers, `n` is a height, `nn` a byte and `nnn` an
address.  The fields are read off with division and remainder, so that a
word is the sum of its fields.
-/

namespace Chip8

/-- Sixteen bits, read as one instruction. -/
abbrev Word := UInt16

/-- The addresses an instruction can spell out: twelve bits. -/
abbrev Target := Fin 0x1000

/-- A digit can be written as a numeral.  The zero is the one of the numerals
themselves. -/
instance digitNeZero : @NeZero Nat Zero.ofOfNat0 16 := ⟨by decide⟩

theorem digit_lt (d : Fin 16) : d.val < 16 := d.isLt

namespace Word

def ofBytes (high low : UInt8) : Word :=
  .ofNat (256 * high.toNat + low.toNat)

/-- The first digit: which family of instructions. -/
def kind (w : Word) : Fin 16 :=
  ⟨w.toNat / 0x1000, by have := w.toNat_lt; omega⟩

/-- The second digit: a register. -/
def x (w : Word) : Fin 16 :=
  ⟨w.toNat / 0x100 % 16, by omega⟩

/-- The third digit: a register. -/
def y (w : Word) : Fin 16 :=
  ⟨w.toNat / 0x10 % 16, by omega⟩

def n (w : Word) : Fin 16 :=
  ⟨w.toNat % 0x10, by omega⟩

/-- The low byte. -/
def nn (w : Word) : UInt8 :=
  .ofNat (w.toNat % 0x100)

/-- The low three digits: an address. -/
def nnn (w : Word) : Target :=
  ⟨w.toNat % 0x1000, by omega⟩

end Word

end Chip8
