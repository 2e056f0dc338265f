/-
# `Chip8.Memory` — four kilobytes

    0x000          unused
    0x050 – 0x09F  the digits of `Chip8.Glyph`
    0x200 – 0xFFF  the program, and what it does with the rest

Nothing wraps around the top.  An access names the first byte that does not
exist: the address itself for a single byte, and for a range that sticks
out the end of memory, or the start of the range if even that lies beyond.
A range is all or nothing.

The sum of an address and a length is kept in 64 bits.  A longer one is no
access to memory at all (`Stop.overflow`).
-/
import Chip8.Glyph
import Chip8.Outcome
import Chip8.Word

namespace Chip8

/-- The bytes, by address. -/
structure Memory where
  bytes : Vector UInt8 0x1000
  deriving DecidableEq

namespace Memory

def size : Nat := 0x1000

/-- Where programs are put and begin to run. -/
def programStart : Nat := 0x200

/-- The longest program that fits. -/
def programRoom : Nat := size - programStart

/-! ## Single bytes -/

/-- The byte at `addr`, and 0 where there is none. -/
def byteAt (m : Memory) (addr : Nat) : UInt8 :=
  if h : addr < 0x1000 then m.bytes[addr] else 0

def read (m : Memory) (addr : Nat) : Except Cause UInt8 :=
  if addr < size then .ok (m.byteAt addr) else .error (.outOfBounds addr)

def write (m : Memory) (addr : Nat) (b : UInt8) : Except Cause Memory :=
  if h : addr < 0x1000 then .ok ⟨m.bytes.set addr b⟩
  else .error (.outOfBounds addr)

/-! ## Ranges -/

/-- Whether the `len` bytes from `addr` on are there, and what to report if
not. -/
def checkRange (addr len : Nat) : Except (Stop Cause) Unit :=
  if UInt64.size ≤ addr + len then .error .overflow
  else if size < addr + len then .error (.raised (.outOfBounds (max addr size)))
  else .ok ()

def slice (m : Memory) (addr len : Nat) : Except (Stop Cause) (List UInt8) :=
  match checkRange addr len with
  | .error e => .error e
  | .ok () => .ok ((List.range len).map fun k => m.byteAt (addr + k))

/-- The word at `addr`, high byte first. -/
def word (m : Memory) (addr : Nat) : Except (Stop Cause) Word :=
  match checkRange addr 2 with
  | .error e => .error e
  | .ok () => .ok (Word.ofBytes (m.byteAt addr) (m.byteAt (addr + 1)))

/-- Puts `data` at `addr` and after; what would lie past the end is lost. -/
def patch (m : Memory) (addr : Nat) : List UInt8 → Memory
  | [] => m
  | b :: data => patch ⟨m.bytes.setIfInBounds addr b⟩ (addr + 1) data

/-- Puts `data` at `addr` and after, if all of it fits. -/
def fill (m : Memory) (addr : Nat) (data : List UInt8) : Except (Stop Cause) Memory :=
  match checkRange addr data.length with
  | .error e => .error e
  | .ok () => .ok (m.patch addr data)

/-! ## Fresh memories -/

/-- Zeros and the digits. -/
def blank : Memory :=
  patch ⟨.replicate 0x1000 0⟩ Glyph.base Glyph.table

/-- A blank memory with a program in its place. -/
def ofProgram (rom : List UInt8) : Except Cause Memory :=
  if programRoom < rom.length then .error (.romTooLarge rom.length programRoom)
  else .ok (blank.patch programStart rom)

end Memory

end Chip8
