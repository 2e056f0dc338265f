/-
# `Chip8.Host.Replay` — a host that plays a script and takes notes

Which keys it holds depends only on the pictures it has been shown.  It
keeps them all, and it wants a given number of frames, or frames without
end.  Its frames take the time it is told they take; waiting costs it
nothing.
-/
import Chip8.Host.Basic

namespace Chip8

/-- The script, the notes, and the frames still wanted. -/
structure Replay where
  /-- The keys held after these pictures, oldest first. -/
  script : Array Picture → Keypad
  /-- The nanoseconds that the frame with this many pictures took. -/
  times : Nat → Nat
  pictures : Array Picture
  /-- `none` wants frames without end. -/
  allowance : Option Nat

namespace Replay

/-- The keys of a list, one entry for each frame; the last entry stays. -/
def keysFromList (keys : List Keypad) (pictures : Array Picture) : Keypad :=
  keys.getD (min pictures.size (keys.length - 1)) .released

def wantsMore (r : Replay) : Bool × Replay :=
  match r.allowance with
  | none => (true, r)
  | some 0 => (false, r)
  | some (n + 1) => (true, { r with allowance := some n })

instance : Host Replay where
  keys r := (r.script r.pictures, r)
  render p r := { r with pictures := r.pictures.push p }
  wantsMore := wantsMore
  frameTime r := r.times r.pictures.size
  pause _ r := r

end Replay

end Chip8
