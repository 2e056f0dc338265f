/-
# `Chip8.Host.Basic` — the world around a machine

Once per frame a machine needs somebody to say which keys are held and to
look at the screen.  That is a `Host`; it may also end the run, and it knows
what time it is.  A machine and its host together are a `Console`.
-/
import Chip8.Keypad
import Chip8.Machine.Basic
import Chip8.Screen.Basic

namespace Chip8

/-- What a host is shown at the end of a frame. -/
structure Picture where
  screen : Screen
  /-- Whether the screen was drawn on since the last picture. -/
  changed : Bool
  soundOn : Bool
  deriving DecidableEq

/-- The outside, as a state of type `H`. -/
class Host (H : Type) where
  /-- The keys held now; asked at the start of every frame. -/
  keys : H → Keypad × H
  /-- A frame has come to its end. -/
  render : Picture → H → H
  /-- Whether there shall be another frame. -/
  wantsMore : H → Bool × H
  /-- How long the last frame took, in nanoseconds. -/
  frameTime : H → Nat
  /-- Waits this many nanoseconds. -/
  pause : Nat → H → H

/-- A machine and its host. -/
structure Console (R H : Type) where
  machine : Machine R
  host : H

end Chip8
