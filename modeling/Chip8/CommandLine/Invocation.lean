/-
# `Chip8.CommandLine.Invocation` — what a command line asks for

A command line names a program and may change how it is run.  The dialect
begins as the modern one, or with `--cosmac-vip` as that of the COSMAC VIP;
the other flags then turn single readings to the older one, never back.
-/
import Chip8.Settings

namespace Chip8

/-- Options that are given or not. -/
inductive Flag where
  | cosmacVip
  | legacyShift
  | legacyJumpWithVx
  | noIndexOverflowFlag
  | legacyStoreLoad
  | headless
  deriving DecidableEq, Repr

/-- Options with a number. -/
inductive Quantity where
  /-- Instructions per second. -/
  | speed
  /-- Where the random numbers start. -/
  | seed
  /-- Frames to run without a window. -/
  | frames
  deriving DecidableEq, Repr

/-- The first number too high for a quantity. -/
def Quantity.limit : Quantity → Nat
  | .speed => UInt32.size
  | .seed | .frames => UInt64.size

/-- Whether a minus sign may stand before the number.  No quantity is below
zero, so it may stand before zero only. -/
def Quantity.takesMinus : Quantity → Bool
  | .speed => true
  | .seed | .frames => false

/-- A program to run, and how. -/
structure Invocation where
  /-- The name of the program's file. -/
  rom : String
  flags : List Flag := []
  speed : Nat := 700
  seed : Option UInt64 := none
  frames : Nat := 600
  deriving DecidableEq, Repr

namespace Invocation

def has (i : Invocation) (f : Flag) : Bool := i.flags.contains f

def dialect (i : Invocation) : Dialect :=
  let base : Dialect := if i.has .cosmacVip then .cosmacVip else .modern
  { shiftsY := base.shiftsY || i.has .legacyShift
    jumpsFromX := base.jumpsFromX || i.has .legacyJumpWithVx
    flagsIndexOverflow := base.flagsIndexOverflow && !i.has .noIndexOverflowFlag
    advancesIndex := base.advancesIndex || i.has .legacyStoreLoad }

def settings (i : Invocation) : Settings where
  dialect := i.dialect
  speed := i.speed
  seed := i.seed

end Invocation

end Chip8
