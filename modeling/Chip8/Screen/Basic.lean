/-
# `Chip8.Screen.Basic` — 64 by 32 points of light

A screen is 32 rows of 64 bits; the most significant bit of a row is its
leftmost pixel.  Screens combine pixel by pixel: `xor` lights what is lit in
exactly one of two screens, and two screens `meet` if some pixel is lit in
both.  A sprite placed on an otherwise dark screen is a screen itself, so
drawing is `xor` and a collision is a meeting.

Placing clips: rows below the last and columns right of the last are lost,
nothing comes in on the other side.
-/

namespace Chip8

/-- The rows, from the top. -/
structure Screen where
  rows : Vector (BitVec 64) 32
  deriving DecidableEq

namespace Screen

def width : Nat := 64

def height : Nat := 32

/-- Everything is dark. -/
def blank : Screen := ⟨.replicate 32 0⟩

/-- The pixel in column `x` of row `y`, both counted around the edges. -/
def pixel (s : Screen) (x y : Nat) : Bool :=
  s.rows[y % 32].getMsbD (x % 64)

/-! ## Two screens -/

/-- Lit where exactly one of the two is lit. -/
def xor (s t : Screen) : Screen := ⟨s.rows.zipWith (· ^^^ ·) t.rows⟩

/-- Whether some pixel is lit in both. -/
def meets (s t : Screen) : Bool :=
  (s.rows.zipWith (· &&& ·) t.rows).any (· != 0)

/-! ## Sprites -/

/-- One row of a sprite, its left end in column `left`. -/
def spriteRow (bits : UInt8) (left : Nat) : BitVec 64 :=
  (bits.toBitVec.setWidth 64 <<< 56) >>> left

/-- A sprite alone on a dark screen: row `r` of `sprite` is in row `top + r`,
and its left end in column `left`. -/
def ofSprite (sprite : List UInt8) (left top : Nat) : Screen :=
  ⟨.ofFn fun y : Fin 32 =>
    if top ≤ y.val then
      match sprite[y.val - top]? with
      | some bits => spriteRow bits left
      | none => 0
    else 0⟩

/-! ## Counting -/

def litCount (s : Screen) : Nat :=
  (List.range height).foldl
    (fun count y => count + (List.range width).countP fun x => s.pixel x y) 0

end Screen

end Chip8
