/-
# `Chip8.Hex` — numbers in base sixteen

Addresses, instruction words and memory contents are written in base
sixteen with upper-case digits, filled up with zeros to a least width.  A
number that needs more digits than the width gets them.
-/

namespace Chip8.Hex

/-- The digits of `n`, most significant first; zero has one digit. -/
def digits (n : Nat) : List Char :=
  (Nat.toDigits 16 n).map Char.toUpper

/-- The digits of `n` with zeros in front, at least `width` of them. -/
def padded (width n : Nat) : String :=
  let ds := digits n
  String.ofList (List.replicate (width - ds.length) '0' ++ ds)

/-- An address or word in a message: `0x` and at least `width` digits. -/
def marked (width n : Nat) : String :=
  "0x" ++ padded width n

/-- Two digits for each byte, nothing between them. -/
def ofBytes (bytes : List UInt8) : String :=
  String.join (bytes.map fun b => padded 2 b.toNat)

end Chip8.Hex
