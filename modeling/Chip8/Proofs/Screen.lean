/-
# `Chip8.Proofs.Screen` — screens pixel by pixel

A screen is the function `pixel` on 64 columns and 32 rows (`ext_pixel`), and
every operation on screens is one on pixels:

    blank       no pixel
    xor         exclusive or of the pixels
    meets       some pixel is lit in both
    ofSprite    the pixels the sprite sets (`spriteSets`), clipped

The bits of a sprite are counted from its upper left corner, the highest bit
of a byte first.

Its text shows a screen (`Shown`): the lines have lost the blanks at their ends,
and still a pixel is lit just where there is a block.
-/
import Chip8.Screen.Text

namespace Chip8.Screen

/-! ## A screen is its pixels -/

theorem pixel_of_lt (s : Screen) {x y : Nat} (hx : x < 64) (hy : y < 32) :
    s.pixel x y = s.rows[y].getMsbD x := by
  simp only [pixel, Nat.mod_eq_of_lt hx, Nat.mod_eq_of_lt hy]

theorem ext_pixel {s t : Screen} (h : ∀ x < 64, ∀ y < 32, s.pixel x y = t.pixel x y) :
    s = t := by
  cases s with | mk rows =>
  cases t with | mk rows' =>
  congr 1
  apply Vector.ext
  intro y hy
  apply BitVec.eq_of_getMsbD_eq
  intro x hx
  have := h x hx y hy
  rwa [pixel_of_lt _ hx hy, pixel_of_lt _ hx hy] at this

@[simp] theorem pixel_blank (x y : Nat) : blank.pixel x y = false := by
  simp [pixel, blank]

/-! ## Two screens -/

@[simp] theorem pixel_xor (s t : Screen) (x y : Nat) :
    (s.xor t).pixel x y = (s.pixel x y ^^ t.pixel x y) := by
  simp [pixel, xor]

theorem exists_getMsbD {row : BitVec 64} (h : row ≠ 0) : ∃ x < 64, row.getMsbD x = true := by
  apply Classical.byContradiction
  intro hnone
  apply h
  apply BitVec.eq_of_getMsbD_eq
  intro x hx
  cases hbit : row.getMsbD x with
  | false => exact BitVec.getMsbD_zero.symm
  | true => exact absurd ⟨x, hx, hbit⟩ hnone

theorem meets_iff (s t : Screen) :
    s.meets t = true ↔ ∃ x < 64, ∃ y < 32, s.pixel x y = true ∧ t.pixel x y = true := by
  rw [meets, Vector.any_eq_true]
  constructor
  · rintro ⟨y, hy, hne⟩
    have hrow : s.rows[y] &&& t.rows[y] ≠ 0 := by simpa using hne
    obtain ⟨x, hx, hbit⟩ := exists_getMsbD hrow
    rw [BitVec.getMsbD_and, Bool.and_eq_true] at hbit
    rw [← pixel_of_lt s hx hy, ← pixel_of_lt t hx hy] at hbit
    exact ⟨x, hx, y, hy, hbit⟩
  · rintro ⟨x, hx, y, hy, hs, ht⟩
    refine ⟨y, hy, ?_⟩
    rw [pixel_of_lt _ hx hy] at hs ht
    simp only [Vector.getElem_zipWith, bne_iff_ne]
    intro hzero
    have hbit : (s.rows[y] &&& t.rows[y]).getMsbD x = true := by
      rw [BitVec.getMsbD_and, hs, ht, Bool.and_self]
    rw [hzero] at hbit
    exact absurd hbit (by simp)

theorem xor_xor_cancel (s t : Screen) : (s.xor t).xor t = s :=
  ext_pixel fun x _ y _ => by
    rw [pixel_xor, pixel_xor, Bool.xor_assoc, Bool.xor_self, Bool.xor_false]

/-- Once `t` is combined with a screen, they meet where the screen was dark before. -/
theorem meets_xor_iff (s t : Screen) :
    (s.xor t).meets t = true ↔
      ∃ x < 64, ∃ y < 32, s.pixel x y = false ∧ t.pixel x y = true := by
  have hdark : ∀ x y, (s.xor t).pixel x y = true ∧ t.pixel x y = true ↔
      s.pixel x y = false ∧ t.pixel x y = true := by
    intro x y
    rw [pixel_xor]
    cases s.pixel x y <;> cases t.pixel x y <;> decide
  simp only [meets_iff, hdark]

/-! ## Sprites -/

/-- Whether a sprite with its corner in column `left` of row `top` sets the
pixel in column `x` of row `y`. -/
def spriteSets (sprite : List UInt8) (left top x y : Nat) : Bool :=
  decide (left ≤ x ∧ x < left + 8 ∧ top ≤ y) &&
    (sprite[y - top]?.getD 0).toNat.testBit (7 - (x - left))

theorem getMsbD_spriteRow (bits : UInt8) (left : Nat) {x : Nat} (hx : x < 64) :
    (spriteRow bits left).getMsbD x =
      (decide (left ≤ x ∧ x < left + 8) && bits.toNat.testBit (7 - (x - left))) := by
  have hbit : bits.toNat.testBit (7 - (x - left)) = bits.toBitVec.getLsbD (7 - (x - left)) := rfl
  rw [spriteRow, BitVec.getMsbD_ushiftRight, BitVec.getMsbD_shiftLeft, BitVec.getMsbD_setWidth,
    BitVec.getMsbD_eq_getLsbD, hbit]
  by_cases hl : left ≤ x
  · have hshift : x - left + 56 + 8 - 64 = x - left := by omega
    rw [hshift]
    by_cases hr : x < left + 8
    · have h8 : x - left < 8 := by omega
      simp [hx, hl, hr, h8, Nat.not_lt.mpr hl]
    · have h8 : ¬x - left < 8 := by omega
      simp [hr, h8]
  · simp [hl, Nat.not_le.mp hl]

/-- A sprite on a dark screen lights the pixels it sets; what it sets outside the
screen is lost. -/
theorem pixel_ofSprite (sprite : List UInt8) (left top : Nat) {x y : Nat} (hx : x < 64)
    (hy : y < 32) :
    (ofSprite sprite left top).pixel x y = spriteSets sprite left top x y := by
  rw [pixel_of_lt _ hx hy, ofSprite, spriteSets]
  simp only [Vector.getElem_ofFn]
  by_cases ht : top ≤ y
  · rw [if_pos ht]
    cases hrow : sprite[y - top]? with
    | none => simp
    | some bits => simp [getMsbD_spriteRow bits left hx, ht]
  · simp [ht]

theorem spriteSets_map_range (f : Nat → UInt8) (n left top x y : Nat) :
    spriteSets ((List.range n).map f) left top x y =
      (decide (left ≤ x ∧ x < left + 8 ∧ top ≤ y ∧ y < top + n) &&
        (f (y - top)).toNat.testBit (7 - (x - left))) := by
  rw [spriteSets]
  by_cases hn : y - top < n
  · rw [List.getElem?_map, List.getElem?_range hn]
    by_cases ht : top ≤ y
    · have hlt : y < top + n := by omega
      simp [hlt]
    · simp [ht]
  · have hlt : ¬(top ≤ y ∧ y < top + n) := by omega
    have hnone : ((List.range n).map f)[y - top]? = none := by simpa using hn
    rw [hnone]
    have : ¬(left ≤ x ∧ x < left + 8 ∧ top ≤ y ∧ y < top + n) := fun h => hlt h.2.2
    simp [this]

/-! ## Text -/

/-- The lines are a picture of the screen: no longer than a row, without blanks at their
ends, and with a block just where a pixel is lit. -/
structure Shown (s : Screen) (lines : List String) : Prop where
  length : lines.length = 32
  line : ∀ y < 32, ∃ text, lines[y]? = some text ∧ text.length ≤ 64 ∧
    text.toList.getLast? ≠ some ' ' ∧
    ∀ x < 64, (s.pixel x y = true ↔ text.toList[x]? = some '█')

theorem dropTrailingBlanks_append (cs : List Char) :
    dropTrailingBlanks cs ++ (cs.reverse.takeWhile (· == ' ')).reverse = cs := by
  rw [dropTrailingBlanks, ← List.reverse_append, List.takeWhile_append_dropWhile,
    List.reverse_reverse]

theorem length_dropTrailingBlanks_le (cs : List Char) :
    (dropTrailingBlanks cs).length ≤ cs.length := by
  have hsplit := congrArg List.length (dropTrailingBlanks_append cs)
  rw [List.length_append] at hsplit
  omega

theorem getLast?_dropTrailingBlanks (cs : List Char) :
    (dropTrailingBlanks cs).getLast? ≠ some ' ' := by
  intro hlast
  rw [dropTrailingBlanks, List.getLast?_reverse] at hlast
  have hfirst := List.head?_dropWhile_not (· == ' ') cs.reverse
  rw [hlast] at hfirst
  cases hfirst

theorem getElem?_dropTrailingBlanks (cs : List Char) {c : Char} (hc : c ≠ ' ') (k : Nat) :
    (dropTrailingBlanks cs)[k]? = some c ↔ cs[k]? = some c := by
  have hsplit : cs[k]? =
      (dropTrailingBlanks cs ++ (cs.reverse.takeWhile (· == ' ')).reverse)[k]? := by
    rw [dropTrailingBlanks_append]
  rw [hsplit]
  rcases Nat.lt_or_ge k (dropTrailingBlanks cs).length with hlt | hge
  · rw [List.getElem?_append_left hlt]
  · -- beyond the end there is nothing on the left and a blank, if anything, on the right
    rw [List.getElem?_eq_none hge, List.getElem?_append_right hge]
    refine iff_of_false (by simp) ?_
    intro hmem
    have hall : (cs.reverse.takeWhile (· == ' ')).all (· == ' ') = true := List.all_takeWhile
    have hblank := List.all_eq_true.mp hall c (List.mem_reverse.mp (List.mem_of_getElem? hmem))
    exact hc (beq_iff_eq.mp hblank)

theorem getElem?_marks (s : Screen) (y : Nat) {x : Nat} (hx : x < 64) :
    (s.marks y)[x]? = some (mark (s.pixel x y)) := by
  rw [marks, List.getElem?_map, List.getElem?_range (show x < width from hx)]
  rfl

theorem mark_eq_block_iff (lit : Bool) : mark lit = '█' ↔ lit = true := by
  cases lit <;> decide

theorem shown_lines (s : Screen) : s.Shown s.lines where
  length := by rw [lines, List.length_map, List.length_range]; rfl
  line := by
    intro y hy
    refine ⟨s.line y, ?_, ?_, ?_, ?_⟩
    · rw [lines, List.getElem?_map, List.getElem?_range (show y < height from hy)]
      rfl
    · rw [line, String.length_ofList]
      refine Nat.le_trans (length_dropTrailingBlanks_le _) ?_
      rw [marks, List.length_map, List.length_range]
      exact Nat.le_refl 64
    · rw [line, String.toList_ofList]
      exact getLast?_dropTrailingBlanks _
    · intro x hx
      rw [line, String.toList_ofList, getElem?_dropTrailingBlanks _ (by decide),
        getElem?_marks s y hx, Option.some.injEq, mark_eq_block_iff]

end Chip8.Screen
