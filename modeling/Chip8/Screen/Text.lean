/-
# `Chip8.Screen.Text` — a screen in characters

One line for each row, a full block for each lit pixel and a blank for each
dark one.  Blanks at the end of a line are left away; the line still tells
every pixel, since what is beyond its end is dark.
-/
import Chip8.Screen.Basic

namespace Chip8.Screen

/-- What stands for a pixel. -/
def mark (lit : Bool) : Char := if lit then '█' else ' '

/-- The marks of row `y`, all 64 of them. -/
def marks (s : Screen) (y : Nat) : List Char :=
  (List.range width).map fun x => mark (s.pixel x y)

/-- A list without the blanks at its end. -/
def dropTrailingBlanks (cs : List Char) : List Char :=
  (cs.reverse.dropWhile (· == ' ')).reverse

/-- Row `y` as a line of text. -/
def line (s : Screen) (y : Nat) : String :=
  .ofList (dropTrailingBlanks (s.marks y))

def lines (s : Screen) : List String :=
  (List.range height).map s.line

end Chip8.Screen
