/-
# `Chip8.Settings` — how a machine is to run

Time is cut into frames, sixty to the second.  The speed of a machine is
given in instructions per second and becomes the number of instructions in
one frame: rounded down, but never zero.
-/
import Chip8.Dialect

namespace Chip8

/-- Frames in one second; the timers and the screen go by them. -/
def frameRate : Nat := 60

/-- How long one frame lasts, to the nearest nanosecond. -/
def framePeriod : Nat := (1000000000 + frameRate / 2) / frameRate

/-- The highest count of frames; counts are kept in 64 bits. -/
def maxFrames : Nat := UInt64.size - 1

/-- What is chosen before a machine is built. -/
structure Settings where
  dialect : Dialect := .modern
  /-- Instructions per second. -/
  speed : Nat := 700
  /-- Where the random numbers start; chance decides if it is left out. -/
  seed : Option UInt64 := none
  deriving DecidableEq, Repr

/-- The size of the batch that one frame runs. -/
def Settings.perFrame (s : Settings) : Nat :=
  max (s.speed / frameRate) 1

end Chip8
