/-
# `Chip8.Host.Terminal` — a host without keys or window

It grants a number of frames and keeps the last screen, to be printed when
the run is over.  It copies a screen only when told that it has changed.

The number is kept one too high, since it goes down before each frame, and
in 64 bits.  The largest number cannot be kept one too high and grants one
frame less.
-/
import Chip8.Host.Basic
import Chip8.Screen.Text

namespace Chip8

/-- The frames still to be granted, and the screen seen last. -/
structure Terminal where
  framesLeft : Nat
  screen : Screen
  deriving DecidableEq

namespace Terminal

/-- A terminal that grants `frames` frames and has seen `screen`. -/
def ofFrames (frames : Nat) (screen : Screen) : Terminal :=
  ⟨min (frames + 1) maxFrames, screen⟩

/-- Counts down, and grants a frame unless that reached zero. -/
def wantsMore (t : Terminal) : Bool × Terminal :=
  let left := t.framesLeft - 1
  (0 < left, { t with framesLeft := left })

/-- Keeps the screen if it changed. -/
def render (p : Picture) (t : Terminal) : Terminal :=
  if p.changed then { t with screen := p.screen } else t

/-- What is printed at the end. -/
def lines (t : Terminal) : List String := t.screen.lines

instance : Host Terminal where
  keys t := (.released, t)
  render := render
  wantsMore := wantsMore
  frameTime _ := 0
  pause _ t := t

end Terminal

end Chip8
