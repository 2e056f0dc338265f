/-
# `Chip8.Random.Source` — where random bytes come from

A source is a state from which the next byte and the next state follow.
Machines take any source; a run is determined by the program and the state
its source begins with.  The simplest source is here: a counter with a fixed
stride.
-/

namespace Chip8

/-- A stream of bytes, unfolded from a state. -/
class RandomSource (R : Type) where
  next : R → UInt8 × R

/-- A counter of 64 bits that grows by `stride` for each byte; its bytes are
its low bytes. -/
structure Counter where
  value : UInt64
  stride : UInt64
  deriving DecidableEq, Repr

instance : RandomSource Counter where
  next c := (c.value.toUInt8, { c with value := c.value + c.stride })

end Chip8
