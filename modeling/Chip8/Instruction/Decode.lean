/-
# `Chip8.Instruction.Decode` — from words to instructions

The first digit picks the family.  Within a family the remaining digits are
operands, except in four of them, where they also pick the member:

    0   00E0 and 00EE by the whole word, all else is 0NNN
    5   the last digit has to be 0;  so in 9
    8   the last digit is the operation, 0 to 7 or E
    E   the low byte is 9E or A1
    F   the low byte is one of nine

Words that no family takes are no instructions.
-/
import Chip8.Instruction.Basic

namespace Chip8.Instruction

/-- The operation of 8XYN. -/
def operation? (n : Fin 16) : Option Operation :=
  match n.val with
  | 0x0 => some .copy
  | 0x1 => some .or
  | 0x2 => some .and
  | 0x3 => some .xor
  | 0x4 => some .add
  | 0x5 => some .sub
  | 0x6 => some .shiftRight
  | 0x7 => some .subFrom
  | 0xE => some .shiftLeft
  | _ => none

/-- The members of the family E. -/
def ofKeyWord? (x : Fin 16) (nn : UInt8) : Option Instruction :=
  match nn.toNat with
  | 0x9E => some (.skipIfHeld x)
  | 0xA1 => some (.skipUnlessHeld x)
  | _ => none

/-- The members of the family F. -/
def ofTransferWord? (x : Fin 16) (nn : UInt8) : Option Instruction :=
  match nn.toNat with
  | 0x07 => some (.getDelay x)
  | 0x0A => some (.awaitKey x)
  | 0x15 => some (.setDelay x)
  | 0x18 => some (.setSound x)
  | 0x1E => some (.addIndex x)
  | 0x29 => some (.pointGlyph x)
  | 0x33 => some (.storeDecimal x)
  | 0x55 => some (.storeRegisters x)
  | 0x65 => some (.loadRegisters x)
  | _ => none

/-- The instruction that a word spells, if it spells one. -/
def decode? (w : Word) : Option Instruction :=
  match w.kind.val with
  | 0x0 =>
      if w = 0x00E0 then some .clear
      else if w = 0x00EE then some .ret
      else some (.native w.nnn)
  | 0x1 => some (.jump w.nnn)
  | 0x2 => some (.call w.nnn)
  | 0x3 => some (.skipIfByte w.x w.nn)
  | 0x4 => some (.skipUnlessByte w.x w.nn)
  | 0x5 => if w.n = 0 then some (.skipIfEqual w.x w.y) else none
  | 0x6 => some (.setByte w.x w.nn)
  | 0x7 => some (.addByte w.x w.nn)
  | 0x8 => (operation? w.n).map fun op => .combine op w.x w.y
  | 0x9 => if w.n = 0 then some (.skipUnlessEqual w.x w.y) else none
  | 0xA => some (.setIndex w.nnn)
  | 0xB => some (.jumpOffset w.nnn)
  | 0xC => some (.random w.x w.nn)
  | 0xD => some (.draw w.x w.y w.n)
  | 0xE => ofKeyWord? w.x w.nn
  | _ => ofTransferWord? w.x w.nn

end Chip8.Instruction
