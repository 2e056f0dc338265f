/-
# `Chip8.Duration` — spans of time in writing

A span is a number of nanoseconds.  It is written in the largest unit that it
reaches, with as many decimals as it takes and no zero at their end:

    16666667     16.666667ms
    2000000      2ms
    1500         1.5µs
-/

namespace Chip8.Duration

/-- The decimals of `rest / unit`, by long division; at most `places` of them. -/
def decimals (unit : Nat) : Nat → Nat → List Char
  | 0, _ => []
  | places + 1, rest =>
      if rest = 0 then []
      else (10 * rest / unit).digitChar :: decimals unit places (10 * rest % unit)

/-- A span in a unit of `unit` nanoseconds, which is 1 with `places` zeros. -/
def inUnit (name : String) (unit places time : Nat) : String :=
  let whole := toString (time / unit)
  match decimals unit places (time % unit) with
  | [] => whole ++ name
  | digits => whole ++ "." ++ String.ofList digits ++ name

/-- A span of `time` nanoseconds. -/
def text (time : Nat) : String :=
  if 1000000000 ≤ time then inUnit "s" 1000000000 9 time
  else if 1000000 ≤ time then inUnit "ms" 1000000 6 time
  else if 1000 ≤ time then inUnit "µs" 1000 3 time
  else inUnit "ns" 1 0 time

end Chip8.Duration
