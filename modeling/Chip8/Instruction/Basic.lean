/-
# `Chip8.Instruction.Basic` — the instructions

An instruction is a verb with its operands.  Registers are numbers below
16, bytes are bytes, and addresses are those an instruction can spell out.
The family 8XYN is one instruction, `combine`, over the operations of
`Operation`.
-/
import Chip8.Word

namespace Chip8

/-- What 8XYN does with two registers, by its last digit. -/
inductive Operation where
  /-- 0: VX becomes VY. -/
  | copy
  /-- 1: bitwise or. -/
  | or
  /-- 2: bitwise and. -/
  | and
  /-- 3: bitwise exclusive or. -/
  | xor
  /-- 4: VX + VY, and VF tells the carry. -/
  | add
  /-- 5: VX − VY, and VF tells that nothing was borrowed. -/
  | sub
  /-- 6: one bit to the right, and VF is the bit that fell out. -/
  | shiftRight
  /-- 7: VY − VX, and VF tells that nothing was borrowed. -/
  | subFrom
  /-- E: one bit to the left, and VF is the bit that fell out. -/
  | shiftLeft
  deriving DecidableEq, Repr

/-- An instruction with its operands. -/
inductive Instruction where
  /-- 00E0: darken the screen. -/
  | clear
  /-- 00EE: go back to the caller. -/
  | ret
  /-- 0NNN: a routine of the host processor; nothing happens. -/
  | native (target : Target)
  /-- 1NNN: go to NNN. -/
  | jump (target : Target)
  /-- 2NNN: call the subroutine at NNN. -/
  | call (target : Target)
  /-- 3XNN: skip the next instruction if VX is NN. -/
  | skipIfByte (x : Fin 16) (nn : UInt8)
  /-- 4XNN: skip it if VX is not NN. -/
  | skipUnlessByte (x : Fin 16) (nn : UInt8)
  /-- 5XY0: skip it if VX is VY. -/
  | skipIfEqual (x y : Fin 16)
  /-- 9XY0: skip it if VX is not VY. -/
  | skipUnlessEqual (x y : Fin 16)
  /-- 6XNN: VX becomes NN. -/
  | setByte (x : Fin 16) (nn : UInt8)
  /-- 7XNN: VX grows by NN. -/
  | addByte (x : Fin 16) (nn : UInt8)
  /-- 8XYN: VX becomes a combination of VX and VY. -/
  | combine (op : Operation) (x y : Fin 16)
  /-- ANNN: I becomes NNN. -/
  | setIndex (target : Target)
  /-- BNNN: go to NNN and some further. -/
  | jumpOffset (target : Target)
  /-- CXNN: VX becomes a random byte, cut down to the bits of NN. -/
  | random (x : Fin 16) (nn : UInt8)
  /-- DXYN: draw the N rows at I, the corner at (VX, VY). -/
  | draw (x y n : Fin 16)
  /-- EX9E: skip the next instruction if key VX is held. -/
  | skipIfHeld (x : Fin 16)
  /-- EXA1: skip it if key VX is not held. -/
  | skipUnlessHeld (x : Fin 16)
  /-- FX07: VX becomes the delay timer. -/
  | getDelay (x : Fin 16)
  /-- FX0A: wait for a key, then VX becomes its number. -/
  | awaitKey (x : Fin 16)
  /-- FX15: the delay timer becomes VX. -/
  | setDelay (x : Fin 16)
  /-- FX18: the sound timer becomes VX. -/
  | setSound (x : Fin 16)
  /-- FX1E: I grows by VX. -/
  | addIndex (x : Fin 16)
  /-- FX29: I becomes the address of the picture of the digit VX. -/
  | pointGlyph (x : Fin 16)
  /-- FX33: the three decimal digits of VX go to I and after. -/
  | storeDecimal (x : Fin 16)
  /-- FX55: V0 to VX go to I and after. -/
  | storeRegisters (x : Fin 16)
  /-- FX65: V0 to VX come from I and after. -/
  | loadRegisters (x : Fin 16)
  deriving DecidableEq, Repr

end Chip8
