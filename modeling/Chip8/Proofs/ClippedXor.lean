/-
# `Chip8.Proofs.ClippedXor` — one sprite on the screen, once and twice

A DXYN whose rows are all in memory comes to its end on any machine, and changes three
things (`draw_eq_clipped_xor`):

    screen        the pixels it covers are turned over
    VF            1 if a lit pixel is covered, and 0 otherwise
    frameReady    set

A pixel is covered if the bit of the sprite for it is set.  The corner wraps onto the
screen, the sprite does not: bits beyond the right or the lower edge cover nothing.  VX
and VY are read before VF is cleared, so VF may be either of them.

The library combines two screens; going through the rows and their bits, one pixel after
the other, comes to the same (`Machine.draw?`).

The second time the sprite covers the pixels that it covered the first time, so the screen
is as it was (`draw_twice_restores`), and VF tells of the pixels that were dark.
-/
import Chip8.Proofs.Checked
import Chip8.Proofs.Loading
import Chip8.Proofs.ScreenHistory

namespace Chip8

namespace Machine

variable {R : Type} (m : Machine R)

theorem get_setFlag (b : Bool) : (m.setFlag b).v.get 0xF = if b then 1 else 0 :=
  m.get_setV 0xF _

theorem get_setFlag_eq_one_iff {b : Bool} : (m.setFlag b).v.get 0xF = 1 ↔ b = true := by
  rw [get_setFlag]
  cases b <;> decide

theorem get_setFlag_eq_zero_iff {b : Bool} : (m.setFlag b).v.get 0xF = 0 ↔ ¬b = true := by
  rw [get_setFlag]
  cases b <;> decide

theorem get_setFlag_eq_zero_or_one (b : Bool) :
    (m.setFlag b).v.get 0xF = 0 ∨ (m.setFlag b).v.get 0xF = 1 := by
  rw [get_setFlag]
  cases b <;> decide

theorem exists_sprite_pixel_iff (x y n : Fin 16) (P : Nat → Nat → Prop) :
    (∃ px < 64, ∃ py < 32, P px py ∧ (m.sprite x y n).pixel px py = true) ↔
      ∃ px < 64, ∃ py < 32, Execution.covers px py ⟨m, .draw x y n⟩ = true ∧ P px py := by
  constructor
  · rintro ⟨px, hpx, py, hpy, hP, hset⟩
    exact ⟨px, hpx, py, hpy, pixel_sprite m x y n hpx hpy ▸ hset, hP⟩
  · rintro ⟨px, hpx, py, hpy, hset, hP⟩
    exact ⟨px, hpx, py, hpy, hP, pixel_sprite m x y n hpx hpy ▸ hset⟩

theorem meets_sprite_iff (x y n : Fin 16) :
    m.screen.meets (m.sprite x y n) = true ↔ ∃ px < 64, ∃ py < 32,
      Execution.covers px py ⟨m, .draw x y n⟩ = true ∧ m.screen.pixel px py = true :=
  (Screen.meets_iff _ _).trans (m.exists_sprite_pixel_iff x y n _)

theorem pixel_xor_sprite (x y n : Fin 16) {px py : Nat} (hpx : px < 64) (hpy : py < 32) :
    (m.screen.xor (m.sprite x y n)).pixel px py =
      (m.screen.pixel px py ^^ Execution.covers px py ⟨m, .draw x y n⟩) := by
  rw [Screen.pixel_xor, pixel_sprite m x y n hpx hpy]

variable [RandomSource R]

theorem executeWord_of_draw {w : Word} (hw : w.kind = 0xD) (hfits : m.index + w.n ≤ 4096) :
    executeWord w m = .done () (Instruction.effect m (.draw w.x w.y w.n)) := by
  rw [executeWord_of_spells (i := .draw w.x w.y w.n) ⟨hw, rfl, rfl, rfl⟩]
  exact m.draw_of_le w.x w.y hfits

end Machine

variable {R : Type} [RandomSource R]

/-- A DXYN turns over just the pixels on the screen whose bits are set, and VF tells whether
one of them was lit; nothing else changes but that there is a picture to take. -/
theorem draw_eq_clipped_xor (m : Machine R) {w : Word} (hw : w.kind = 0xD)
    (hfits : m.index + w.n ≤ 4096) :
    let left := (m.v.get w.x).toNat % 64
    let top := (m.v.get w.y).toNat % 32
    let covered (px py : Nat) : Bool :=
      decide (left ≤ px ∧ px < left + 8 ∧ top ≤ py ∧ py < top + w.n) &&
        (m.memory.byteAt (m.index + (py - top))).toNat.testBit (7 - (px - left))
    let o := Machine.executeWord w m
    o.result = .ok () ∧
    (∀ px < 64, ∀ py < 32, o.state.screen.pixel px py = (m.screen.pixel px py ^^ covered px py)) ∧
    (o.state.v.get 0xF = 1 ↔
      ∃ px < 64, ∃ py < 32, covered px py = true ∧ m.screen.pixel px py = true) ∧
    (o.state.v.get 0xF = 0 ↔
      ¬∃ px < 64, ∃ py < 32, covered px py = true ∧ m.screen.pixel px py = true) ∧
    o.state = { m with
      v := (m.setV 0xF (o.state.v.get 0xF)).v
      screen := o.state.screen
      frameReady := true } ∧
    m.draw? w.x w.y w.n = some o := by
  intro left top covered o
  have ho : o = .done () (Instruction.effect m (.draw w.x w.y w.n)) :=
    m.executeWord_of_draw hw hfits
  have hhit := m.meets_sprite_iff w.x w.y w.n
  rw [ho]
  -- `covered` is `Execution.covers` of this DXYN, written out
  refine ⟨rfl, ?_, ?_, ?_, ?_, ?_⟩
  · intro px hpx py hpy
    exact m.pixel_xor_sprite w.x w.y w.n hpx hpy
  · exact (Machine.get_setFlag_eq_one_iff m).trans hhit
  · exact (Machine.get_setFlag_eq_zero_iff m).trans (not_congr hhit)
  · show _ = { m with v := (m.setV 0xF ((m.setFlag _).v.get 0xF)).v, screen := _, frameReady := _ }
    rw [m.get_setFlag]
    rfl
  · rw [m.draw?_eq, m.draw_of_le w.x w.y hfits]

/-- DF15 draws the digit 0 over both edges of a dark screen, its column in VF itself. -/
theorem draw_eq_clipped_xor_of_corner :
    let idle := Machine.idle {} (⟨0, 1⟩ : Counter)
    let m := ({ idle with index := 0x50 }.setV 0xF 62).setV 1 30
    let o := Machine.executeWord (.ofBytes 0xDF 0x15) m
    o.result = .ok () ∧ o.state.v.get 0xF = 0 ∧
    o.state.screen.pixel 62 30 = true ∧ o.state.screen.pixel 0 30 = false := by
  intro idle m o
  obtain ⟨hok, hpixel, -, hclear, -, -⟩ :=
    draw_eq_clipped_xor m (w := .ofBytes 0xDF 0x15) (by decide) (by decide)
  have hrow : m.memory.byteAt 0x50 = 0xF0 := Memory.byteAt_blank (by decide)
  have hdark : ∀ px py, m.screen.pixel px py = false := Screen.pixel_blank
  refine ⟨hok, ?_, ?_, ?_⟩
  · apply hclear.mpr
    rintro ⟨px, -, py, -, -, hlit⟩
    rw [hdark] at hlit
    cases hlit
  · rw [hpixel 62 (by decide) 30 (by decide), hdark]
    show (false ^^ (true && (m.memory.byteAt 0x50).toNat.testBit 7)) = true
    rw [hrow]
    decide
  · rw [hpixel 0 (by decide) 30 (by decide), hdark]
    rfl

/-! ## The same sprite twice -/

namespace Machine

variable {R : Type} [RandomSource R] {m : Machine R} {x y : Fin 16}

/-- A draw leaves alone what its sprite is made of, but for the flag. -/
theorem sprite_effect_draw (hx : x ≠ 0xF) (hy : y ≠ 0xF) (n : Fin 16) :
    (Instruction.effect m (.draw x y n)).sprite x y n = m.sprite x y n := by
  have hv : ∀ z : Fin 16, z ≠ 0xF →
      (Instruction.effect m (.draw x y n)).v.get z = m.v.get z :=
    fun z hz => m.get_setV_of_ne hz.symm _
  rw [sprite, hv x hx, hv y hy]
  rfl

/-- The pixels that a sprite meets after it was drawn are those that it lit. -/
theorem meets_sprite_again_iff (hx : x ≠ 0xF) (hy : y ≠ 0xF) (n : Fin 16) :
    let drawn := Instruction.effect m (.draw x y n)
    drawn.screen.meets (drawn.sprite x y n) = true ↔ ∃ px < 64, ∃ py < 32,
      Execution.covers px py ⟨m, .draw x y n⟩ = true ∧ m.screen.pixel px py = false := by
  intro drawn
  rw [show drawn.sprite x y n = m.sprite x y n from sprite_effect_draw hx hy n]
  exact (Screen.meets_xor_iff _ _).trans (m.exists_sprite_pixel_iff x y n _)

end Machine

/-- The same DXYN twice gives back the screen.  The first VF tells whether a pixel that the
sprite covers was lit, the second whether one was dark; VX and VY are not VF, for that would
be another place the second time. -/
theorem draw_twice_restores (m : Machine R) {w : Word} (hw : w.kind = 0xD) (hx : w.x ≠ 0xF)
    (hy : w.y ≠ 0xF) (hfits : m.index + w.n ≤ 4096) :
    let left := (m.v.get w.x).toNat % 64
    let top := (m.v.get w.y).toNat % 32
    let covered (px py : Nat) : Bool :=
      decide (left ≤ px ∧ px < left + 8 ∧ top ≤ py ∧ py < top + w.n) &&
        (m.memory.byteAt (m.index + (py - top))).toNat.testBit (7 - (px - left))
    let once := Machine.executeWord w m
    let twice := Machine.executeWord w once.state
    once.result = .ok () ∧ twice.result = .ok () ∧ twice.state.screen = m.screen ∧
    (once.state.v.get 0xF = 1 ↔
      ∃ px < 64, ∃ py < 32, covered px py = true ∧ m.screen.pixel px py = true) ∧
    (twice.state.v.get 0xF = 1 ↔
      ∃ px < 64, ∃ py < 32, covered px py = true ∧ m.screen.pixel px py = false) ∧
    ∀ o ∈ [once, twice], o.state.v.get 0xF = 0 ∨ o.state.v.get 0xF = 1 := by
  intro left top covered once twice
  let drawn := Instruction.effect m (.draw w.x w.y w.n)
  have honce : once = .done () drawn := m.executeWord_of_draw hw hfits
  have htwice : twice = .done () (Instruction.effect drawn (.draw w.x w.y w.n)) := by
    rw [show twice = Machine.executeWord w once.state from rfl, honce]
    exact drawn.executeWord_of_draw hw hfits
  rw [honce, htwice]
  refine ⟨rfl, rfl, ?_, ?_, ?_, ?_⟩
  · show (m.screen.xor (m.sprite w.x w.y w.n)).xor (drawn.sprite w.x w.y w.n) = m.screen
    rw [Machine.sprite_effect_draw hx hy, Screen.xor_xor_cancel]
  · exact (Machine.get_setFlag_eq_one_iff m).trans (m.meets_sprite_iff w.x w.y w.n)
  · exact (Machine.get_setFlag_eq_one_iff drawn).trans (Machine.meets_sprite_again_iff hx hy w.n)
  · rw [List.forall_mem_cons, List.forall_mem_singleton]
    exact ⟨m.get_setFlag_eq_zero_or_one _, drawn.get_setFlag_eq_zero_or_one _⟩

/-- The digit 0 over both edges of a dark screen lights what the second D015 puts out. -/
theorem draw_twice_restores_of_corner :
    let idle := Machine.idle {} (⟨0, 1⟩ : Counter)
    let m := ({ idle with index := 0x50 }.setV 0 62).setV 1 30
    let once := Machine.executeWord (.ofBytes 0xD0 0x15) m
    let twice := Machine.executeWord (.ofBytes 0xD0 0x15) once.state
    twice.result = .ok () ∧ twice.state.screen = m.screen ∧
    once.state.v.get 0xF = 0 ∧ twice.state.v.get 0xF = 1 := by
  intro idle m once twice
  obtain ⟨-, hok, hscreen, hlit, hdark, hbit⟩ := draw_twice_restores m (w := .ofBytes 0xD0 0x15)
    (by decide) (by decide) (by decide) (by decide)
  have hrow : m.memory.byteAt 0x50 = 0xF0 := Memory.byteAt_blank (by decide)
  have hblank : ∀ px py, m.screen.pixel px py = false := Screen.pixel_blank
  refine ⟨hok, hscreen, ?_, ?_⟩
  · apply (hbit once List.mem_cons_self).resolve_right
    intro hone
    obtain ⟨px, -, py, -, -, hpixel⟩ := hlit.mp hone
    rw [hblank] at hpixel
    cases hpixel
  · refine hdark.mpr ⟨62, by decide, 30, by decide, ?_, hblank 62 30⟩
    show (true && (m.memory.byteAt 0x50).toNat.testBit 7) = true
    rw [hrow]
    decide

end Chip8
