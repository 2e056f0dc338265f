/-
# `Chip8.Machine.Basic` — the machine at rest

Everything a program can see, and what its surroundings left there: memory,
the registers V0 to VF, the address register I, the program counter with
the stack of return addresses, two timers, the screen, the keys held, the
settings and the source of random bytes.

A machine is *idle* until a program is loaded, then it is *running*, and
*halted* once an instruction has failed; only another load ends that.

Addresses are natural numbers, but the program counter and I are registers
of 16 bits.  Whoever puts a sum into one of them checks it first and stops
with `Stop.overflow` if it does not fit.
-/
import Chip8.Instruction.Decode
import Chip8.Keypad
import Chip8.Memory
import Chip8.Random.ChaCha
import Chip8.Screen.Basic
import Chip8.Settings

namespace Chip8

/-- What a machine is doing. -/
inductive Status where
  /-- No program yet. -/
  | idle
  | running
  /-- Stopped for good by `fault`. -/
  | halted (fault : Fault)
  deriving DecidableEq, Repr

/-- A machine with its source of random bytes. -/
structure Machine (R : Type) where
  memory : Memory
  /-- The address of the next instruction. -/
  pc : Nat
  /-- The return addresses, newest first. -/
  stack : List Nat
  /-- The registers V0 to VF. -/
  v : Vector UInt8 16
  /-- The address register I. -/
  index : Nat
  /-- The timer that programs read. -/
  delay : UInt8
  /-- The timer that is heard. -/
  sound : UInt8
  screen : Screen
  /-- Whether the screen was drawn on since somebody last asked. -/
  frameReady : Bool
  keys : Keypad
  settings : Settings
  source : R
  status : Status
  deriving DecidableEq

namespace Machine

/-- How many return addresses the stack holds. -/
def stackDepth : Nat := 16

variable {R : Type}

/-- A machine without a program. -/
def idle (settings : Settings) (source : R) : Machine R where
  memory := .blank
  pc := Memory.programStart
  stack := []
  v := .replicate 16 0
  index := 0
  delay := 0
  sound := 0
  screen := .blank
  frameReady := false
  keys := .released
  settings := settings
  source := source
  status := .idle

/-- A machine without a program whose random bytes come from the seed in its
settings, or from `chance` if there is none. -/
def seeded (settings : Settings) (chance : UInt64) : Machine ChaCha :=
  idle settings (.ofSeed (settings.seed.getD chance))

/-! ## Loading -/

/-- Puts a program into memory and starts over with it.  The keys, the
settings and the random source stay.  A program that does not fit is
refused, and nothing happens. -/
def load (rom : List UInt8) (m : Machine R) : Outcome Cause (Machine R) Unit :=
  match Memory.ofProgram rom with
  | .error cause => .raise cause m
  | .ok memory =>
      { result := .ok ()
        state := { m with
          memory := memory
          pc := Memory.programStart
          stack := []
          v := .replicate 16 0
          index := 0
          delay := 0
          sound := 0
          screen := .blank
          frameReady := true
          status := .running }
        log := #[.loaded rom.length Memory.programStart] }

/-! ## The surroundings -/

/-- Presses or lets go of one key. -/
def setKey (key : Nat) (held : Bool) (m : Machine R) : Machine R :=
  { m with keys := m.keys.set key held }

def setKeys (keys : Keypad) (m : Machine R) : Machine R :=
  { m with keys := keys }

/-- Whether the screen was drawn on since the last time this was asked. -/
def takeFrame (m : Machine R) : Bool × Machine R :=
  (m.frameReady, { m with frameReady := false })

/-- The buzzer sounds as long as the sound timer has not run out. -/
def soundOn (m : Machine R) : Bool := 0 < m.sound

def isHalted (m : Machine R) : Bool :=
  match m.status with
  | .halted _ => true
  | _ => false

end Machine

end Chip8
