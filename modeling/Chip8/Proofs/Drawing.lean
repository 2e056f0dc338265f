/-
# `Chip8.Proofs.Drawing` — drawing one pixel after the other

The library draws a sprite in one go: it places the rows on a dark screen and
combines the two screens.  The machines of old went through the rows, and in
each row through the bits, and turned pixels over one by one; a row stopped at
the right edge and the sprite at the lower edge.  That is `drawRows?` here, and
every pixel it asks for has to be there: it has no answer (`none`) otherwise.

What a loop does is described by the pixels it turns over (`Turned`).  One
that turns over the pixels of P and then one that turns over those of Q, none
twice, turn over P or Q; so a row is the sum of its bits and a sprite the sum
of its rows, and what comes out is what drawing in one go gives
(`drawRows?_eq`).
-/
import Chip8.Proofs.Screen

namespace Chip8.Screen

/-! ## Single pixels -/

/-- Whether a pixel is lit that has to be on the screen. -/
def lit? (s : Screen) (x y : Nat) : Option Bool :=
  if h : x < 64 ∧ y < 32 then
    have := h.2
    some (s.rows[y].getMsbD x)
  else none

/-- Turns over a pixel that has to be on the screen. -/
def flip? (s : Screen) (x y : Nat) : Option Screen :=
  if h : x < 64 ∧ y < 32 then
    have := h.2
    some ⟨s.rows.set y (s.rows[y] ^^^ BitVec.twoPow 64 (63 - x))⟩
  else none

/-! ## The loops -/

/-- Turns over the pixels of row `y` that the bits with these numbers ask for, up
to the right edge.  Bit 0 is the leftmost.  `drawn` says whether a lit pixel went
dark so far. -/
def drawRow? (bits : UInt8) (left y : Nat) : List Nat → Bool × Screen → Option (Bool × Screen)
  | [], drawn => some drawn
  | col :: cols, drawn =>
      if 64 ≤ left + col then some drawn
      else if bits &&& (0x80 >>> UInt8.ofNat col) = 0 then drawRow? bits left y cols drawn
      else do
        let lit ← drawn.2.lit? (left + col) y
        let screen ← drawn.2.flip? (left + col) y
        drawRow? bits left y cols (drawn.1 || lit, screen)

/-- Draws the rows of a sprite from row `row` on, up to the lower edge. -/
def drawRows? (left top : Nat) : List UInt8 → Nat → Bool × Screen → Option (Bool × Screen)
  | [], _, drawn => some drawn
  | bits :: sprite, row, drawn =>
      if 32 ≤ top + row then some drawn
      else do
        let drawn ← drawRow? bits left (top + row) (List.range 8) drawn
        drawRows? left top sprite (row + 1) drawn

/-! ## Turning over -/

/-- From `d` to `d'` the pixels of `P` were turned over, each of them once. -/
structure Turned (P : Nat → Nat → Bool) (d d' : Bool × Screen) : Prop where
  pixel : ∀ x < 64, ∀ y < 32, d'.2.pixel x y = (d.2.pixel x y ^^ P x y)
  hit : d'.1 = true ↔
    d.1 = true ∨ ∃ x < 64, ∃ y < 32, P x y = true ∧ d.2.pixel x y = true

namespace Turned

variable {P Q : Nat → Nat → Bool} {d d' d'' : Bool × Screen}

theorem refl (h : ∀ x < 64, ∀ y < 32, P x y = false) : Turned P d d where
  pixel x hx y hy := by rw [h x hx y hy, Bool.xor_false]
  hit := by
    constructor
    · exact .inl
    · rintro (hd | ⟨x, hx, y, hy, hP, -⟩)
      · exact hd
      · rw [h x hx y hy] at hP
        cases hP

theorem congr (h : Turned P d d') (hPQ : ∀ x < 64, ∀ y < 32, P x y = Q x y) : Turned Q d d' where
  pixel x hx y hy := hPQ x hx y hy ▸ h.pixel x hx y hy
  hit := by
    rw [h.hit]
    constructor
    · rintro (hd | ⟨x, hx, y, hy, hP, hlit⟩)
      · exact .inl hd
      · exact .inr ⟨x, hx, y, hy, hPQ x hx y hy ▸ hP, hlit⟩
    · rintro (hd | ⟨x, hx, y, hy, hQ, hlit⟩)
      · exact .inl hd
      · exact .inr ⟨x, hx, y, hy, (hPQ x hx y hy).symm ▸ hQ, hlit⟩

theorem trans (h : Turned P d d') (h' : Turned Q d' d'')
    (hPQ : ∀ x < 64, ∀ y < 32, P x y = true → Q x y = false) :
    Turned (fun x y => P x y || Q x y) d d'' where
  pixel x hx y hy := by
    rw [h'.pixel x hx y hy, h.pixel x hx y hy]
    have := hPQ x hx y hy
    cases hP : P x y with
    | false => simp
    | true => simp [this hP]
  hit := by
    -- a pixel of Q is not one of P, so it is still as it was
    have hkept : ∀ x < 64, ∀ y < 32, Q x y = true → d'.2.pixel x y = d.2.pixel x y := by
      intro x hx y hy hQ
      have := hPQ x hx y hy
      cases hP : P x y with
      | false => rw [h.pixel x hx y hy, hP, Bool.xor_false]
      | true => rw [this hP] at hQ; cases hQ
    rw [h'.hit, h.hit]
    constructor
    · rintro ((hd | ⟨x, hx, y, hy, hP, hlit⟩) | ⟨x, hx, y, hy, hQ, hlit⟩)
      · exact .inl hd
      · exact .inr ⟨x, hx, y, hy, by simp [hP], hlit⟩
      · exact .inr ⟨x, hx, y, hy, by simp [hQ], (hkept x hx y hy hQ) ▸ hlit⟩
    · rintro (hd | ⟨x, hx, y, hy, hor, hlit⟩)
      · exact .inl (.inl hd)
      · rcases Bool.or_eq_true_iff.mp hor with hP | hQ
        · exact .inl (.inr ⟨x, hx, y, hy, hP, hlit⟩)
        · exact .inr ⟨x, hx, y, hy, hQ, (hkept x hx y hy hQ).symm ▸ hlit⟩

theorem eq_of_pixel {t : Screen} (h : Turned P d d')
    (ht : ∀ x < 64, ∀ y < 32, t.pixel x y = P x y) : d' = (d.1 || d.2.meets t, d.2.xor t) := by
  have hscreen : d'.2 = d.2.xor t :=
    ext_pixel fun x hx y hy => by rw [h.pixel x hx y hy, pixel_xor, ht x hx y hy]
  have hhit : d'.1 = (d.1 || d.2.meets t) := by
    rw [Bool.eq_iff_iff, h.hit, Bool.or_eq_true_iff, meets_iff]
    refine or_congr_right ⟨?_, ?_⟩
    · rintro ⟨x, hx, y, hy, hP, hlit⟩
      exact ⟨x, hx, y, hy, hlit, (ht x hx y hy).trans hP⟩
    · rintro ⟨x, hx, y, hy, hlit, htxy⟩
      exact ⟨x, hx, y, hy, (ht x hx y hy).symm.trans htxy, hlit⟩
  exact Prod.ext hhit hscreen

end Turned

/-! ## One pixel -/

theorem lit?_of_lt (s : Screen) {x y : Nat} (hx : x < 64) (hy : y < 32) :
    s.lit? x y = some (s.pixel x y) := by
  rw [lit?, dif_pos ⟨hx, hy⟩, pixel_of_lt s hx hy]

theorem flip?_of_lt (s : Screen) {x y : Nat} (hx : x < 64) (hy : y < 32) :
    ∃ s', s.flip? x y = some s' ∧ ∀ px < 64, ∀ py < 32,
      s'.pixel px py = (s.pixel px py ^^ decide (px = x ∧ py = y)) := by
  refine ⟨_, dif_pos ⟨hx, hy⟩, ?_⟩
  intro px hpx py hpy
  rw [pixel_of_lt _ hpx hpy, pixel_of_lt _ hpx hpy]
  simp only [Vector.getElem_set]
  by_cases hrow : y = py
  · subst hrow
    have hcol : px = 64 - (63 - x) - 1 ↔ px = x := by omega
    have hlt : 63 - x < 64 := by omega
    rw [if_pos rfl, BitVec.getMsbD_xor, BitVec.getMsbD_twoPow]
    simp [hcol, hlt]
  · simp [hrow, Ne.symm hrow]

theorem turned_flip {s s' : Screen} {x y : Nat} (hx : x < 64) (hy : y < 32) (hit : Bool)
    (hs' : ∀ px < 64, ∀ py < 32,
      s'.pixel px py = (s.pixel px py ^^ decide (px = x ∧ py = y))) :
    Turned (fun px py => decide (px = x ∧ py = y)) (hit, s) (hit || s.pixel x y, s') where
  pixel := hs'
  hit := by
    rw [Bool.or_eq_true_iff]
    refine or_congr_right ⟨fun hlit => ⟨x, hx, y, hy, by simp, hlit⟩, ?_⟩
    rintro ⟨px, -, py, -, hdot, hlit⟩
    obtain ⟨rfl, rfl⟩ := of_decide_eq_true hdot
    exact hlit

/-! ## One row -/

theorem mask_eq_zero_iff (bits : UInt8) {col : Nat} (hcol : col < 8) :
    bits &&& (0x80 >>> UInt8.ofNat col) = 0 ↔ bits.toNat.testBit (7 - col) = false := by
  have hmask : ∀ c : Fin 8,
      ((0x80 : UInt8) >>> UInt8.ofNat c.val).toBitVec = BitVec.twoPow 8 (7 - c.val) := by decide
  have hpow : BitVec.twoPow 8 (7 - col) ≠ 0 := by
    have : ∀ c : Fin 8, BitVec.twoPow 8 (7 - c.val) ≠ 0 := by decide
    exact this ⟨col, hcol⟩
  have hbit : bits.toNat.testBit (7 - col) = bits.toBitVec.getLsbD (7 - col) := rfl
  rw [← UInt8.toBitVec_inj, UInt8.toBitVec_and, hmask ⟨col, hcol⟩, BitVec.and_twoPow, hbit]
  cases bits.toBitVec.getLsbD (7 - col) with
  | false => simp
  | true => simpa using hpow

/-- The pixels of row `y` that the bits from `col` on ask for. -/
def rowPixels (bits : UInt8) (left y col : Nat) (px py : Nat) : Bool :=
  decide (py = y ∧ left + col ≤ px ∧ px < left + 8) && bits.toNat.testBit (7 - (px - left))

/-- The pixels from a bit on are that of the bit and those from the next on. -/
theorem rowPixels_eq (bits : UInt8) (left y : Nat) {col : Nat} (hcol : col < 8) (px py : Nat) :
    rowPixels bits left y col px py =
      ((decide (px = left + col ∧ py = y) && bits.toNat.testBit (7 - col)) ||
        rowPixels bits left y (col + 1) px py) := by
  unfold rowPixels
  by_cases hx : px = left + col
  · have hfirst : (py = y ∧ left + col ≤ px ∧ px < left + 8) ↔ (px = left + col ∧ py = y) := by
      omega
    have hrest : ¬(py = y ∧ left + (col + 1) ≤ px ∧ px < left + 8) := by omega
    have hsub : px - left = col := by omega
    simp [hfirst, hrest, hsub]
  · have hfirst : (py = y ∧ left + col ≤ px ∧ px < left + 8) ↔
        (py = y ∧ left + (col + 1) ≤ px ∧ px < left + 8) := by omega
    simp [hfirst, hx]

theorem rowPixels_of_not {bits : UInt8} {left y col px py : Nat}
    (h : ¬(py = y ∧ left + col ≤ px ∧ px < left + 8)) :
    rowPixels bits left y col px py = false := by
  rw [rowPixels, decide_eq_false h, Bool.false_and]

/-- The loop over the bits from `col` on turns over the pixels they ask for. -/
theorem drawRow?_turned (bits : UInt8) (left : Nat) {y : Nat} (hy : y < 32) {n col : Nat}
    (hn : col + n = 8) (d : Bool × Screen) :
    ∃ d', drawRow? bits left y (List.range' col n) d = some d' ∧
      Turned (rowPixels bits left y col) d d' := by
  induction n generalizing col d with
  | zero =>
      refine ⟨d, rfl, .refl ?_⟩
      intro px _ py _
      exact rowPixels_of_not (by omega)
  | succ n ih =>
      rw [List.range'_succ, drawRow?]
      by_cases hedge : 64 ≤ left + col
      · refine ⟨d, if_pos hedge, .refl ?_⟩
        intro px hpx py _
        exact rowPixels_of_not (by omega)
      · have hx : left + col < 64 := Nat.lt_of_not_le hedge
        have hcol : col < 8 := by omega
        have hnext : col + 1 + n = 8 := by omega
        have hrest := ih hnext
        have hmask := mask_eq_zero_iff bits hcol
        rw [if_neg hedge]
        by_cases hbit : bits &&& (0x80 >>> UInt8.ofNat col) = 0
        · obtain ⟨d', hd', hturned⟩ := hrest d
          refine ⟨d', (if_pos hbit).trans hd', hturned.congr ?_⟩
          intro px _ py _
          rw [rowPixels_eq bits left y hcol, hmask.mp hbit, Bool.and_false, Bool.false_or]
        · have hset : bits.toNat.testBit (7 - col) = true :=
            (Bool.not_eq_false _).mp fun h => hbit (hmask.mpr h)
          obtain ⟨screen, hscreen, hpixel⟩ := flip?_of_lt d.2 hx hy
          obtain ⟨d', hd', hturned⟩ := hrest (d.1 || d.2.pixel (left + col) y, screen)
          have hdot := turned_flip hx hy d.1 hpixel
          refine ⟨d', ?_, (hdot.trans hturned ?_).congr ?_⟩
          · rw [if_neg hbit, lit?_of_lt _ hx hy, hscreen]
            exact hd'
          · -- the bits after this one ask for pixels further right
            intro px _ py _ h
            obtain ⟨rfl, -⟩ := of_decide_eq_true h
            exact rowPixels_of_not (by omega)
          · intro px _ py _
            rw [rowPixels_eq bits left y hcol, hset, Bool.and_true]

/-! ## All rows -/

theorem spriteSets_cons (bits : UInt8) (sprite : List UInt8) (left top px py : Nat) :
    spriteSets (bits :: sprite) left top px py =
      (rowPixels bits left top 0 px py || spriteSets sprite left (top + 1) px py) := by
  unfold spriteSets rowPixels
  by_cases hrow : py = top
  · subst hrow
    rw [decide_eq_false (show ¬(left ≤ px ∧ px < left + 8 ∧ py + 1 ≤ py) by omega)]
    simp
  · by_cases hlt : top ≤ py
    · have hsub : py - top = py - (top + 1) + 1 := by omega
      have hle : top + 1 ≤ py := by omega
      simp [hrow, hlt, hsub, hle]
    · have hnext : ¬top + 1 ≤ py := by omega
      simp [hrow, hlt, hnext]

theorem spriteSets_of_lt {sprite : List UInt8} {left top px py : Nat} (h : py < top) :
    spriteSets sprite left top px py = false := by
  have : ¬(left ≤ px ∧ px < left + 8 ∧ top ≤ py) := by omega
  simp [spriteSets, this]

/-- The loop over the rows turns over the pixels that the sprite sets. -/
theorem drawRows?_turned (left top : Nat) (sprite : List UInt8) (row : Nat) (d : Bool × Screen) :
    ∃ d', drawRows? left top sprite row d = some d' ∧
      Turned (spriteSets sprite left (top + row)) d d' := by
  induction sprite generalizing row d with
  | nil =>
      refine ⟨d, rfl, .refl ?_⟩
      intro px _ py _
      simp [spriteSets]
  | cons bits sprite ih =>
      rw [drawRows?]
      by_cases hedge : 32 ≤ top + row
      · refine ⟨d, if_pos hedge, .refl ?_⟩
        intro px _ py hpy
        exact spriteSets_of_lt (Nat.lt_of_lt_of_le hpy hedge)
      · have hy : top + row < 32 := Nat.lt_of_not_le hedge
        obtain ⟨d', hd', hfirst⟩ := drawRow?_turned bits left hy (Nat.zero_add 8) d
        obtain ⟨d'', hd'', hrest⟩ := ih (row + 1) d'
        refine ⟨d'', ?_, (hfirst.trans hrest ?_).congr ?_⟩
        · rw [if_neg hedge, List.range_eq_range', hd']
          exact hd''
        · -- the rows after this one ask for pixels further down
          intro px _ py _ h
          apply spriteSets_of_lt
          apply Nat.lt_of_not_le
          intro hle
          rw [rowPixels_of_not (by omega)] at h
          cases h
        · intro px _ py _
          exact (spriteSets_cons bits sprite left (top + row) px py).symm

/-- Drawing pixel by pixel finds all its pixels, and draws what drawing in one go
does. -/
theorem drawRows?_eq (sprite : List UInt8) (left top : Nat) (s : Screen) :
    drawRows? left top sprite 0 (false, s) =
      some (s.meets (ofSprite sprite left top), s.xor (ofSprite sprite left top)) := by
  obtain ⟨d, hd, hturned⟩ := drawRows?_turned left top sprite 0 (false, s)
  rw [hd, hturned.eq_of_pixel fun x hx y hy => pixel_ofSprite sprite left top hx hy]
  simp

end Chip8.Screen
