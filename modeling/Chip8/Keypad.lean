/-
# `Chip8.Keypad` — sixteen keys

A keypad is the set of keys held down, one bit each: key `k` is bit `k`.
Numbers from 16 on are no keys; asking for one answers that it is not held,
and pressing one does nothing.
-/

namespace Chip8

structure Keypad where
  mask : BitVec 16
  deriving DecidableEq, Repr

namespace Keypad

def released : Keypad := ⟨0⟩

/-- The keys whose bits are set in `mask`; bits from 16 on are ignored. -/
def ofMask (mask : Nat) : Keypad := ⟨.ofNat 16 mask⟩

/-- The set as a number. -/
def toMask (keys : Keypad) : Nat := keys.mask.toNat

def isHeld (keys : Keypad) (key : Nat) : Bool := keys.mask.getLsbD key

def set (keys : Keypad) (key : Nat) (held : Bool) : Keypad :=
  if held then ⟨keys.mask ||| .twoPow 16 key⟩ else ⟨keys.mask &&& ~~~(.twoPow 16 key)⟩

def lowest? (keys : Keypad) : Option Nat :=
  (List.range 16).find? keys.isHeld

end Keypad

end Chip8
