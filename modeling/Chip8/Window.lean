/-
# `Chip8.Window` — a machine behind a window

A window drives its machine itself: at every frame it hands over the keys
and asks what to show.  Nothing new to show is no answer; neither is a fault,
after which the window just keeps its last picture.

What it shows is made of pixels of its own (`Pixel`), which it makes of numbers:
1 where the screen is lit and 0 where it is dark.
-/
import Chip8.Machine.Step

namespace Chip8.Window

variable {R : Type} [RandomSource R]

/-- One frame with these keys, and the screen if it is to be shown anew.  A
halted machine does not even see the keys. -/
def refresh (keys : Keypad) (m : Machine R) : Outcome Fault (Machine R) (Option Screen) :=
  if m.isHalted then .done none m
  else
    let o := (m.setKeys keys).frame
    match o.result with
    | .error (.raised _) => ⟨.ok none, o.state, o.log⟩
    | .error .overflow => ⟨.error .overflow, o.state, o.log⟩
    | .ok () =>
        let (changed, machine) := o.state.takeFrame
        ⟨.ok (if changed then some machine.screen else none), machine, o.log⟩

/-! ## The picture -/

class Pixel (P : Type) where
  /-- The pixel of a number, if it has one. -/
  ofByte? : UInt8 → Option P
  /-- What stands for a number without a pixel. -/
  fallback : P

/-- The rows of a picture, from the top. -/
abbrev Display (P : Type) := Vector (Vector P 64) 32

/-- A screen in the pixels of the window. -/
def display (P : Type) [Pixel P] (s : Screen) : Display P :=
  .ofFn fun y : Fin 32 => .ofFn fun x : Fin 64 =>
    (Pixel.ofByte? (if s.pixel x y then 1 else 0)).getD Pixel.fallback

/-- One frame with these keys, and what to show if there is anything new. -/
def redraw (P : Type) [Pixel P] (keys : Keypad) (m : Machine R) :
    Outcome Fault (Machine R) (Option (Display P)) :=
  (refresh keys m).andThen fun screen? => .done (screen?.map (display P))

/-! ## The rest -/

/-- Whether the window lets its buzzer sound. -/
def buzzer (m : Machine R) : Bool := m.soundOn

def period : Nat := framePeriod

end Chip8.Window
