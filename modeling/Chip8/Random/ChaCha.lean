/-
# `Chip8.Random.ChaCha` — random bytes from a seed

The key stream of ChaCha with twelve rounds.  A block is sixteen words of 32
bits,

    four constants,  eight words of key,  the block's number (low word first),  0, 0

mixed by six double rounds and added to what it was before.  The stream is
block 0, block 1, and so on, word by word; the source gives the low byte of
each word.

The key comes from a seed of 64 bits: a congruential generator takes eight
steps, and each of its states is folded into one word.
-/
import Chip8.Random.Source
import Chip8.Word

namespace Chip8

namespace ChaCha

/-- The sixteen words that are mixed. -/
abbrev Block := Vector UInt32 16

/-! ## Mixing -/

def rotateLeft (w n : UInt32) : UInt32 := (w <<< n) ||| (w >>> (32 - n))

/-- Mixes the four words at `a`, `b`, `c`, `d`. -/
def quarterRound (s : Block) (a b c d : Fin 16) : Block :=
  let wa := s[a] + s[b]
  let wd := rotateLeft (s[d] ^^^ wa) 16
  let wc := s[c] + wd
  let wb := rotateLeft (s[b] ^^^ wc) 12
  let wa := wa + wb
  let wd := rotateLeft (wd ^^^ wa) 8
  let wc := wc + wd
  let wb := rotateLeft (wb ^^^ wc) 7
  (((s.set a wa).set b wb).set c wc).set d wd

/-- The four columns of the block, read as four rows of four, and then its
four diagonals. -/
def doubleRound (s : Block) : Block :=
  let s := quarterRound s 0 4 8 12
  let s := quarterRound s 1 5 9 13
  let s := quarterRound s 2 6 10 14
  let s := quarterRound s 3 7 11 15
  let s := quarterRound s 0 5 10 15
  let s := quarterRound s 1 6 11 12
  let s := quarterRound s 2 7 8 13
  quarterRound s 3 4 9 14

/-- Twelve rounds. -/
def mix (s : Block) : Block := Nat.repeat doubleRound 6 s

/-- The words every block begins with. -/
def constants : Vector UInt32 4 :=
  #v[0x61707865, 0x3320646E, 0x79622D32, 0x6B206574]

/-- The words every block ends with: its number, and two zeros. -/
def counter (number : Nat) : Vector UInt32 4 :=
  #v[UInt32.ofNat number, UInt32.ofNat (number / UInt32.size), 0, 0]

def initial (key : Vector UInt32 8) (number : Nat) : Block :=
  constants ++ key ++ counter number

def block (key : Vector UInt32 8) (number : Nat) : Block :=
  let s := initial key number
  (mix s).zipWith (· + ·) s

/-- Word `k` of the key stream. -/
def word (key : Vector UInt32 8) (k : Nat) : UInt32 :=
  (block key (k / 16))[k % 16]

/-! ## The key -/

/-- One step of the congruential generator. -/
def advance (s : UInt64) : UInt64 :=
  s * 6364136223846793005 + 11634580027462260723

/-- A state folded into one word: the high bits say how far the others are
turned to the right. -/
def fold (s : UInt64) : UInt32 :=
  let w := (((s >>> 18) ^^^ s) >>> 27).toUInt32
  let turn := (s >>> 59).toUInt32
  (w >>> turn) ||| (w <<< ((32 - turn) % 32))

/-- The key of a seed: word `i` is folded from state `i + 1`. -/
def keyOfSeed (seed : UInt64) : Vector UInt32 8 :=
  .ofFn fun i : Fin 8 => fold (Nat.repeat advance (i.val + 1) seed)

end ChaCha

/-- A place in the key stream: the key, and the number of words taken. -/
structure ChaCha where
  key : Vector UInt32 8
  taken : Nat
  deriving DecidableEq

namespace ChaCha

/-- The beginning of the stream of a seed. -/
def ofSeed (seed : UInt64) : ChaCha := ⟨keyOfSeed seed, 0⟩

instance : RandomSource ChaCha where
  next c := ((word c.key c.taken).toUInt8, { c with taken := c.taken + 1 })

end ChaCha

end Chip8
