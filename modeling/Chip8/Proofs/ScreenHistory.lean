/-
# `Chip8.Proofs.ScreenHistory` — the screen is what was drawn

Only two instructions change the screen: 00E0 makes it dark, and DXYN turns
over the pixels its sprite covers (`Execution.covers`).  So a pixel is lit just
if an odd number of the sprites drawn since the last 00E0 covers it
(`pixel_eq_parity`), and their order does not matter.

    covers     left ≤ px < left + 8, top ≤ py < top + N, and the bit is set,
               with left = VX mod 64 and top = VY mod 32 before the DXYN

The count starts with the load of the program, which leaves a dark screen.
-/
import Chip8.Host.Terminal
import Chip8.Proofs.History
import Chip8.Proofs.Loading
import Chip8.Proofs.Screen

namespace Chip8

/-! ## Drawing, execution by execution -/

section Drawn
variable {R : Type}

/-- What an execution makes of the screen. -/
def Screen.drawn (s : Screen) (e : Execution R) : Screen :=
  match e.instruction with
  | .clear => .blank
  | .draw x y n => s.xor (e.before.sprite x y n)
  | _ => s

/-- Whether an execution turns over the pixel in column `px` of row `py`. -/
def Execution.covers (px py : Nat) (e : Execution R) : Bool :=
  match e.instruction with
  | .draw x y n =>
      let left := (e.before.v.get x).toNat % 64
      let top := (e.before.v.get y).toNat % 32
      decide (left ≤ px ∧ px < left + 8 ∧ top ≤ py ∧ py < top + n) &&
        (e.before.memory.byteAt (e.before.index + (py - top))).toNat.testBit (7 - (px - left))
  | _ => false

def sinceClear (executions : List (Execution R)) : List (Execution R) :=
  (executions.reverse.takeWhile fun e => e.instruction != .clear).reverse

theorem pixel_sprite (m : Machine R) (x y n : Fin 16) {px py : Nat} (hpx : px < 64)
    (hpy : py < 32) : (m.sprite x y n).pixel px py = Execution.covers px py ⟨m, .draw x y n⟩ := by
  rw [Machine.sprite, Screen.pixel_ofSprite _ _ _ hpx hpy, Memory.bytesFrom,
    Screen.spriteSets_map_range]
  rfl

theorem pixel_drawn {s : Screen} {e : Execution R} (he : e.instruction ≠ .clear) {px py : Nat}
    (hpx : px < 64) (hpy : py < 32) :
    (s.drawn e).pixel px py = (s.pixel px py ^^ e.covers px py) := by
  obtain ⟨m, i⟩ := e
  cases i with
  | clear => exact absurd rfl he
  | draw x y n =>
      show (s.xor (m.sprite x y n)).pixel px py = _
      rw [Screen.pixel_xor, pixel_sprite m x y n hpx hpy]
  | _ => exact (Bool.xor_false _).symm

/-- Newest first, the executions that a dark screen shows count up to the first
00E0. -/
theorem pixel_foldr_drawn {px py : Nat} (hpx : px < 64) (hpy : py < 32)
    (executions : List (Execution R)) :
    (executions.foldr (fun e s => Screen.drawn s e) .blank).pixel px py =
      decide ((executions.takeWhile fun e => e.instruction != .clear).countP
        (Execution.covers px py) % 2 = 1) := by
  induction executions with
  | nil => simp
  | cons e executions ih =>
      rw [List.foldr_cons]
      by_cases he : e.instruction = .clear
      · have hstop : (e.instruction != .clear) = false := by simp [he]
        rw [List.takeWhile_cons, hstop, Screen.drawn, he]
        simp
      · have hgo : (e.instruction != .clear) = true := by simp [he]
        rw [List.takeWhile_cons, hgo, pixel_drawn he hpx hpy, ih, if_pos rfl, List.countP_cons]
        generalize List.countP (Execution.covers px py) _ = count
        by_cases hodd : count % 2 = 1 <;> cases e.covers px py <;> simp [hodd] <;> omega

theorem pixel_foldl_drawn {px py : Nat} (hpx : px < 64) (hpy : py < 32)
    (executions : List (Execution R)) :
    (executions.foldl Screen.drawn .blank).pixel px py =
      decide ((sinceClear executions).countP (Execution.covers px py) % 2 = 1) := by
  rw [← List.reverse_reverse executions, List.foldl_reverse, pixel_foldr_drawn hpx hpy,
    sinceClear, List.reverse_reverse, List.countP_reverse]

theorem foldl_drawn_of_other (s : Screen) {executions : List (Execution R)}
    (h : ∀ e ∈ executions, e.instruction ≠ .clear ∧ ∀ x y n, e.instruction ≠ .draw x y n) :
    executions.foldl Screen.drawn s = s := by
  induction executions with
  | nil => rfl
  | cons e executions ih =>
      obtain ⟨⟨hclear, hdraw⟩, hrest⟩ := List.forall_mem_cons.mp h
      have hkeep : s.drawn e = s := by
        obtain ⟨m, i⟩ := e
        cases i with
        | clear => exact absurd rfl hclear
        | draw x y n => exact absurd rfl (hdraw x y n)
        | _ => rfl
      rw [List.foldl_cons, hkeep]
      exact ih hrest

end Drawn

/-! ## The screen follows -/

section Runs
variable {R H : Type} [RandomSource R] [Host H]

theorem screen_effect (m : Machine R) (i : Instruction) :
    (i.effect m.past).screen = m.screen.drawn ⟨m, i⟩ := by
  cases i with
  | clear | ret | call _ | draw _ _ _ | storeDecimal _ | storeRegisters _ => rfl
  | _ =>
      rw [Instruction.effect_onRegisters]
      · rfl
      · trivial

theorem screen_follows : Follows (Machine.screen (R := R)) Screen.drawn where
  setKeys _ _ := rfl
  takeFrame _ := rfl
  countDown _ := rfl
  halt _ _ := rfl
  past _ := rfl
  spoil _ i := by cases i <;> rfl
  effect m i _ _ := screen_effect m i

/-- Since a load, a pixel is lit just if an odd number of the sprites drawn after
the last 00E0 covers it, in whatever order they are counted; and a call that
executes neither DXYN nor 00E0 leaves the screen alone. -/
theorem pixel_eq_parity {m : Machine R} {rom : List UInt8} (hload : (m.load rom).result = .ok ())
    {calls : List (Call H)} (hcalls : ∀ c ∈ calls, ¬c.Loads) :
    let start := (m.load rom).state
    let final := after calls start
    (∀ px < 64, ∀ py < 32, ∀ draws : List (Execution R),
      draws.Perm (sinceClear (history calls start)) →
        (final.screen.pixel px py = true ↔ draws.countP (Execution.covers px py) % 2 = 1)) ∧
    ∀ c : Call H, ¬c.Loads →
      (∀ e ∈ c.history final, e.instruction ≠ .clear ∧ ∀ x y n, e.instruction ≠ .draw x y n) →
        (c.perform final).state.screen = final.screen := by
  intro start final
  have hstart : start = m.loaded rom := by
    rw [show start = (m.load rom).state from rfl, m.load_of_le ((m.load_result_iff rom).mp hload)]
  have hin : start.InBounds := hstart ▸ inBounds_loaded rom m
  constructor
  · intro px hpx py hpy draws hdraws
    have hfollows := screen_follows.after hin hcalls
    have hblank : start.screen = .blank := by rw [hstart]; rfl
    rw [hblank] at hfollows
    rw [show final.screen = _ from hfollows, pixel_foldl_drawn hpx hpy, hdraws.countP_eq]
    exact decide_eq_true_iff
  · intro c hc hnone
    have hfinal : final.InBounds := inBounds_kept.after hcalls hin
    rw [screen_follows.perform hfinal hc]
    exact foldl_drawn_of_other _ hnone

omit [RandomSource R] in
theorem covers_digit {m : Machine R} (hv : m.v.get 0 = 0) (hindex : m.index = 0x50)
    (hrow : m.memory.byteAt 0x50 = 0xF0) : Execution.covers 0 0 ⟨m, .draw 0 0 5⟩ = true := by
  simp only [Execution.covers, hv, hindex]
  show (true && (m.memory.byteAt 0x50).toNat.testBit 7) = true
  rw [hrow]
  decide

/-- A050 D005 draws the digit 0, and its upper left corner is lit, as one sprite covers it; to
take the picture changes nothing. -/
theorem pixel_eq_parity_of_digit :
    let start := (Machine.idle {} (⟨0, 1⟩ : Counter)).loaded [0xA0, 0x50, 0xD0, 0x05]
    let final := after ([.step, .setKey 5 true, .step] : List (Call Terminal)) start
    (sinceClear (history ([.step, .setKey 5 true, .step] : List (Call Terminal)) start)).countP
      (Execution.covers 0 0) = 1 ∧
    final.screen.pixel 0 0 = true ∧
    ((Call.takeFrame : Call Terminal).perform final).state.screen = final.screen := by
  intro start
  -- left as a definition, the last machine would be computed when it is compared
  dsimp only
  have hload : ((Machine.idle {} (⟨0, 1⟩ : Counter)).load [0xA0, 0x50, 0xD0, 0x05]).result =
      .ok () := (Machine.load_result_iff _ _).mpr (by decide)
  have hcalls : ∀ c ∈ ([.step, .setKey 5 true, .step] : List (Call Terminal)), ¬c.Loads := by
    decide
  have hpc : start.pc + 2 + 2 ≤ Memory.size := show 0x200 + 2 + 2 ≤ 0x1000 by decide
  have hindex : start.nextWord.Spells (.setIndex 0x50) :=
    Machine.spells_loaded (k := 0) _ (by decide) rfl rfl ⟨rfl, rfl⟩
  have hdraw : (start.memory.wordAt (start.pc + 2)).Spells (.draw 0 0 5) :=
    Machine.spells_loaded (k := 2) _ (by decide) rfl rfl ⟨rfl, rfl, rfl, rfl⟩
  have hrow : start.memory.byteAt 0x50 = 0xF0 := byteAt_loaded_eq_layout _ _ (by decide)
  let next := { start with pc := start.pc + 2, index := 0x50, keys := start.keys.set 5 true }
  have hhistory : history ([.step, .setKey 5 true, .step] : List (Call Terminal)) start =
      [⟨start, .setIndex 0x50⟩, ⟨next, .draw 0 0 5⟩] :=
    history_of_setIndex (inBounds_loaded _ _) rfl hpc hindex hdraw 5 true
      (show Instruction.rangeCause? 0x50 5 = none from Instruction.rangeCause?_of_le (by decide))
  have hcovers : Execution.covers 0 0 ⟨next, .draw 0 0 5⟩ = true := covers_digit rfl rfl hrow
  have hcount : (sinceClear (history ([.step, .setKey 5 true, .step] : List (Call Terminal))
      start)).countP (Execution.covers 0 0) = 1 := by
    rw [hhistory]
    show ([⟨start, .setIndex 0x50⟩, ⟨next, .draw 0 0 5⟩] : List (Execution Counter)).countP _ = 1
    rw [List.countP_cons_of_neg Bool.false_ne_true, List.countP_cons_of_pos hcovers]
    rfl
  have hstart : ((Machine.idle {} (⟨0, 1⟩ : Counter)).load [0xA0, 0x50, 0xD0, 0x05]).state =
      start := by rw [Machine.load_of_le _ ((Machine.load_result_iff _ _).mp hload)]
  have hlaw := pixel_eq_parity hload hcalls
  dsimp only at hlaw
  rw [hstart] at hlaw
  obtain ⟨hparity, hkeep⟩ := hlaw
  refine ⟨hcount, ?_, hkeep .takeFrame id fun _ he => absurd he List.not_mem_nil⟩
  refine (hparity 0 (by decide) 0 (by decide) _ (.refl _)).mpr ?_
  exact congrArg (· % 2) hcount

end Runs

end Chip8
