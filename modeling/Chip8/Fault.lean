/-
# `Chip8.Fault` — what can stop a machine

A `Cause` says what went wrong, a `Fault` adds the address of the
instruction that did it.  Both have one wording each, `message`; nothing
else in the library writes these texts.
-/
import Chip8.Hex
import Chip8.Word

namespace Chip8

/-- What can go wrong. -/
inductive Cause where
  | romTooLarge (size max : Nat)
  | stackOverflow
  | stackUnderflow
  | outOfBounds (address : Nat)
  | unknownOpcode (word : Word)
  deriving DecidableEq, Repr

def Cause.message : Cause → String
  | .romTooLarge size max =>
      s!"ROM is too large ({size} bytes), max size is {max} bytes"
  | .stackOverflow => "stack overflow: more than 16 nested subroutine calls"
  | .stackUnderflow => "stack underflow: return with an empty call stack"
  | .outOfBounds address =>
      "memory access out of bounds at address " ++ Hex.marked 4 address
  | .unknownOpcode word => "unknown opcode " ++ Hex.marked 4 word.toNat

/-- A cause together with the address of the instruction that raised it. -/
structure Fault where
  pc : Nat
  cause : Cause
  deriving DecidableEq, Repr

/-- The cause's text, and the address in parentheses. -/
def Fault.message (f : Fault) : String :=
  f.cause.message ++ " (pc " ++ Hex.marked 3 f.pc ++ ")"

end Chip8
