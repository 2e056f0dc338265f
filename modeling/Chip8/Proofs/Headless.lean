/-
# `Chip8.Proofs.Headless` — what a run without a window prints

A terminal copies the screen only when it is told that it has changed.  It is told
so if something was drawn since the frame before, and nothing changes the screen
without leaving that mark (`Machine.marked_frame`).  So a copy that is the screen before a
frame is the screen after it (`screen_render_alone`), and after a run it is the screen at
the end of the last frame that was completed:

    all frames completed       the screen of the machine
    a fault after k of them    the screen after k frames; what the last batch
                               drew before the fault is not there

What is printed shows just that (`printed_after_run`).  How the run ends has nothing to do
with the copy (`run_ends`).
-/
import Chip8.Host.Terminal
import Chip8.Proofs.ClippedXor
import Chip8.Proofs.NewPicture

namespace Chip8

variable {R : Type} [RandomSource R] {m : Machine R}

/-! ## Frames without keys -/

namespace Machine

/-- The machine after some frames without keys, each of them taken. -/
def alone : Nat → Machine R → Machine R
  | 0, m => m
  | k + 1, m => (alone k m).serve .released

/-- The frame after these. -/
def aloneFrame (k : Nat) (m : Machine R) : Outcome Fault (Machine R) Unit :=
  ((alone k m).setKeys .released).frame

theorem inBounds_alone (hm : m.InBounds) (k : Nat) : (alone k m).InBounds := by
  induction k with
  | zero => exact hm
  | succ k ih => exact inBounds_kept.serve ih .released

theorem alone_succ {k : Nat} (h : (aloneFrame k m).result = .ok ()) :
    alone (k + 1) m = (aloneFrame k m).state.takeFrame.2 := by
  unfold aloneFrame at h
  simp only [alone, serve, h]
  rfl

end Machine

/-! ## The terminal's copy -/

namespace Terminal

theorem framesLeft_ofFrames (frames : Nat) (screen : Screen) :
    (ofFrames frames screen).framesLeft = min frames (maxFrames - 1) + 1 := by
  have hmax : 1 ≤ maxFrames := by decide
  show min (frames + 1) maxFrames = _
  omega

/-- A terminal keeps its count one higher than what is left to grant. -/
theorem wantsMore_of_left {t : Terminal} {n : Nat} (h : t.framesLeft = n + 1) :
    t.wantsMore = (decide (0 < n), { t with framesLeft := n }) := by
  rw [wantsMore, h, Nat.add_sub_cancel]

theorem framesLeft_render (p : Picture) (t : Terminal) :
    (render p t).framesLeft = t.framesLeft := by
  unfold render
  split <;> rfl

theorem screen_render {p : Picture} {t : Terminal} (h : p.changed = false → p.screen = t.screen) :
    (render p t).screen = p.screen := by
  unfold render
  cases hchanged : p.changed with
  | true => rfl
  | false => exact (h hchanged).symm

end Terminal

/-- What a host is shown of the frame after these. -/
def Machine.alonePicture (k : Nat) (m : Machine R) : Picture :=
  let frame := m.aloneFrame k
  ⟨frame.state.screen, frame.state.frameReady, frame.state.soundOn⟩

theorem tick_alone {k : Nat} (h : (m.aloneFrame k).result = .ok ()) (t : Terminal) :
    Console.tick ⟨m.alone k, t⟩ =
      ⟨.ok (), ⟨m.alone (k + 1), t.render (m.alonePicture k)⟩, (m.aloneFrame k).log⟩ := by
  have htick : Console.tick ⟨m.alone k, t⟩ =
      ⟨.ok (), ⟨(m.aloneFrame k).state.takeFrame.2, t.render (m.alonePicture k)⟩,
        (m.aloneFrame k).log⟩ := Console.tick_of_ok h
  rw [htick, Machine.alone_succ h]

/-- A terminal that has the screen of its machine has it again after a frame that is
completed. -/
theorem screen_render_alone {k : Nat} (hm : m.InBounds) (h : (m.aloneFrame k).result = .ok ())
    {t : Terminal} (ht : t.screen = (m.alone k).screen) :
    (t.render (m.alonePicture k)).screen = (m.alone (k + 1)).screen := by
  have hundrawn : (m.aloneFrame k).state.frameReady = false →
      (m.aloneFrame k).state.screen = (m.alone k).screen :=
    Machine.marked_frame (inBounds_kept.setKeys (Machine.inBounds_alone hm k) .released)
      fun _ => rfl
  rw [Machine.alone_succ h]
  exact Terminal.screen_render fun hchanged => (hundrawn hchanged).trans ht.symm

omit [RandomSource R] in
theorem pause_terminal (pace : Pace) (c : Console R Terminal) : c.pause pace = c := by
  unfold Console.pause
  split <;> rfl

theorem wantsMore_terminal {k n : Nat} {o : Outcome Fault (Console R Terminal) Nat}
    (hmachine : o.state.machine = m.alone k) (hleft : o.state.host.framesLeft = n + 1) :
    (Host.wantsMore o.state.host).1 = decide (0 < n) ∧
      o.state.wantsMore.2 = ⟨m.alone k, { o.state.host with framesLeft := n }⟩ := by
  have hanswer : Host.wantsMore o.state.host = _ := Terminal.wantsMore_of_left hleft
  refine ⟨by rw [hanswer], ?_⟩
  show Console.mk o.state.machine (Host.wantsMore o.state.host).2 = _
  rw [hmachine, hanswer]

/-! ## Runs -/

/-- How a run ends that starts with `m`, and how many frames were completed before that:
all that were granted, or those before a fault. -/
inductive RunEnds (m : Machine R) (granted : Nat) (o : Outcome Fault (Console R Terminal) Nat) :
    Nat → Prop where
  | finished (hok : o.result = .ok granted) (hmachine : o.state.machine = m.alone granted) :
      RunEnds m granted o granted
  | faulted {k : Nat} (hk : k < granted) (fault : Fault)
      (hfault : o.result = .error (.raised fault))
      (hframe : (m.aloneFrame k).result = .error (.raised fault))
      (hmachine : o.state.machine = (m.aloneFrame k).state) : RunEnds m granted o k

theorem RunEnds.result_of_ok {granted k : Nat} {o : Outcome Fault (Console R Terminal) Nat}
    (h : RunEnds m granted o k) (hok : ∀ j < granted, (m.aloneFrame j).result = .ok ()) :
    o.result = .ok granted := by
  cases h with
  | finished hfinished _ => exact hfinished
  | faulted hk fault _ hframe _ => cases (hok k hk).symm.trans hframe

theorem RunEnds.of_fault {granted k j : Nat} {o : Outcome Fault (Console R Terminal) Nat}
    (h : RunEnds m granted o k) (hdone : ∀ i < k, (m.aloneFrame i).result = .ok ())
    (hj : j < granted) (hok : ∀ i < j, (m.aloneFrame i).result = .ok ()) {fault : Fault}
    (hfault : (m.aloneFrame j).result = .error (.raised fault)) :
    k = j ∧ o.result = .error (.raised fault) ∧ o.state.machine = (m.aloneFrame j).state := by
  cases h with
  | finished _ _ => cases (hdone j hj).symm.trans hfault
  | faulted hk fault' hresult hframe hmachine =>
      rcases Nat.lt_trichotomy k j with hlt | rfl | hgt
      · cases (hok k hlt).symm.trans hframe
      · cases hframe.symm.trans hfault
        exact ⟨rfl, hresult, hmachine⟩
      · cases (hdone j hgt).symm.trans hfault

theorem turn_alone {k n : Nat} {o : Outcome Fault (Console R Terminal) Nat}
    (hasked : o.state.wantsMore.2 = ⟨m.alone k, { o.state.host with framesLeft := n }⟩)
    (h : (m.aloneFrame k).result = .ok ()) (pace : Pace) (late : Nat) :
    let turned := Console.turn pace (k + 1) late o
    (∃ late', turned.result = .ok late') ∧ turned.state.machine = m.alone (k + 1) ∧
      turned.state.host.framesLeft = n ∧
      turned.state.host.screen =
        (Terminal.render (m.alonePicture k) { o.state.host with framesLeft := n }).screen := by
  intro turned
  have htick := tick_alone h { o.state.host with framesLeft := n }
  have hturn : turned = _ := Console.turn_of_ok pace (k + 1) late (by rw [hasked, htick])
  rw [hasked, htick, pause_terminal] at hturn
  rw [hturn]
  exact ⟨⟨_, rfl⟩, rfl, Terminal.framesLeft_render _ _, rfl⟩

/-- From between two frames on, with `n` more granted and room for them in the count. -/
theorem runFrom_ends (hm : m.InBounds) (pace : Pace) (n : Nat) {k room late : Nat}
    {o : Outcome Fault (Console R Terminal) Nat} (hok : o.result = .ok late)
    (hmachine : o.state.machine = m.alone k) (hleft : o.state.host.framesLeft = n + 1)
    (hroom : n ≤ room) (hdone : ∀ j < k, (m.aloneFrame j).result = .ok ()) :
    let final := Console.runFrom pace room k o
    ∃ k', (∀ j < k', (m.aloneFrame j).result = .ok ()) ∧ RunEnds m (k + n) final k' ∧
      final.state.host.framesLeft = k + n - k' ∧
      (o.state.host.screen = (m.alone k).screen →
        final.state.host.screen = (m.alone k').screen) := by
  intro final
  induction n generalizing k room late o with
  | zero =>
      obtain ⟨hmore, hasked⟩ := wantsMore_terminal hmachine hleft
      have hfinal : final = _ := Console.runFrom_of_enough hok hmore pace room k
      rw [hfinal, hasked]
      exact ⟨k, hdone, .finished rfl rfl, (Nat.sub_self k).symm, id⟩
  | succ n ih =>
      obtain ⟨hmore, hasked⟩ := wantsMore_terminal hmachine hleft
      cases hframe : (m.aloneFrame k).result with
      | ok _ =>
          obtain ⟨room, rfl⟩ : ∃ r, room = r + 1 :=
            Nat.exists_eq_add_one.mpr (Nat.lt_of_lt_of_le (Nat.succ_pos n) hroom)
          obtain ⟨⟨late', hturn⟩, hnext, hleft', hscreen⟩ := turn_alone hasked hframe pace late
          have hdone' : ∀ j < k + 1, (m.aloneFrame j).result = .ok () :=
            Nat.forall_lt_succ_right.mpr ⟨hdone, hframe⟩
          obtain ⟨k', hbefore, hends, hcount, hshown⟩ :=
            ih hturn hnext hleft' (Nat.le_of_succ_le_succ hroom) hdone'
          have hfinal : final = _ := Console.runFrom_of_more hok hmore pace (room + 1) k
          rw [hfinal, ← Nat.succ_add_eq_add_succ]
          refine ⟨k', hbefore, hends, hcount, fun h => hshown (hscreen.trans ?_)⟩
          exact screen_render_alone hm hframe h
      | error e =>
          have htick : Console.tick ⟨m.alone k, { o.state.host with framesLeft := n + 1 }⟩ = _ :=
            Console.tick_of_error hframe
          have hfinal : final = _ :=
            Console.runFrom_of_fault hok hmore (by rw [hasked, htick]) pace room k
          rw [hasked, htick] at hfinal
          rw [hfinal]
          cases e with
          | raised fault =>
              exact ⟨k, hdone, .faulted (by omega) fault rfl hframe rfl,
                (Nat.add_sub_cancel_left ..).symm, id⟩
          | overflow =>
              have hin := inBounds_kept.setKeys (Machine.inBounds_alone hm k) .released
              exact absurd hframe hin.frame_ne_overflow

/-- A run with a new terminal, whatever screen that has. -/
theorem run_ends (hm : m.InBounds) (pace : Pace) (frames : Nat) (screen : Screen) :
    let granted := min frames (maxFrames - 1)
    let final := Console.run pace ⟨m, Terminal.ofFrames frames screen⟩
    ∃ k, (∀ j < k, (m.aloneFrame j).result = .ok ()) ∧ RunEnds m granted final k ∧
      final.state.host.framesLeft = granted - k ∧
      (screen = m.screen → final.state.host.screen = (m.alone k).screen) := by
  intro granted final
  have hroom : granted ≤ maxFrames := by omega
  have hnone : ∀ j < 0, (m.aloneFrame j).result = .ok () :=
    fun j hj => absurd hj (Nat.not_lt_zero j)
  have hends := runFrom_ends hm pace granted
    (o := .done 0 ⟨m, Terminal.ofFrames frames screen⟩) rfl rfl
    (Terminal.framesLeft_ofFrames frames screen) hroom hnone
  rw [Nat.zero_add] at hends
  exact hends

/-- Whether or not a fault ends it, a run without keys leaves the terminal with the screen
of the last frame that was completed, and what is printed shows that screen. -/
theorem printed_after_run (settings : Settings) (source : R) {rom : List UInt8}
    (hrom : rom.length ≤ 3584) (pace : Pace) (frames : Nat) :
    let start := ((Machine.idle settings source).load rom).state
    let final := Console.run pace ⟨start, Terminal.ofFrames frames start.screen⟩
    ∃ k, (∀ j < k, (start.aloneFrame j).result = .ok ()) ∧
      RunEnds start (min frames (maxFrames - 1)) final k ∧
      final.state.host.screen = (start.alone k).screen ∧
      (k = 0 → final.state.host.screen = .blank) ∧
      (∀ n, final.result = .ok n → final.state.host.screen = final.state.machine.screen) ∧
      final.state.host.screen.Shown final.state.host.lines := by
  intro start final
  have hstart : start = (Machine.idle settings source).loaded rom :=
    congrArg Outcome.state (Machine.load_of_le _ hrom)
  have hin : start.InBounds := hstart ▸ inBounds_loaded rom _
  have hblank : start.screen = .blank := by rw [hstart]; rfl
  obtain ⟨k, hdone, hends, -, hshown⟩ := run_ends hin pace frames start.screen
  have hscreen := hshown rfl
  refine ⟨k, hdone, hends, hscreen, ?_, ?_, Screen.shown_lines _⟩
  · rintro rfl
    exact hscreen.trans hblank
  · intro n hok
    cases hends with
    | finished _ hmachine => exact hscreen.trans (congrArg Machine.screen hmachine).symm
    | faulted _ fault hfault =>
        rw [show final.result = _ from hfault] at hok
        cases hok

section Draws
variable (hm : m.InBounds) (hrun : m.status = .running) (hbatch : m.settings.perFrame = 2)
  {x y n : Fin 16}
include hm hrun hbatch

theorem aloneFrame_of_draw (hpc : m.pc + 2 + 2 ≤ Memory.size) {target : Target}
    (hindex : m.nextWord.Spells (.setIndex target))
    (hdraw : (m.memory.wordAt (m.pc + 2)).Spells (.draw x y n))
    (hfits : target.val + n ≤ Memory.size) :
    (m.aloneFrame 0).result = .ok () ∧
      (m.aloneFrame 0).state = (Instruction.draw x y n).effect { m.countDown with
        pc := m.pc + 2 + 2, index := target.val, keys := .released } := by
  have hpc' : m.pc + 2 ≤ Memory.size := Nat.le_of_add_right_le hpc
  have hrunning : (m.setKeys .released).isHalted = false := Machine.isHalted_of_running hrun
  have hin := inBounds_kept.countDown (inBounds_kept.setKeys hm .released) hrunning
  obtain ⟨hin', hresult, hstate⟩ :=
    Machine.repeated_step_of_effect hin hrun hpc' hindex rfl 1
  obtain ⟨-, hresult', hstate'⟩ :=
    Machine.repeated_step_of_effect hin' hrun hpc hdraw (Instruction.rangeCause?_of_le hfits) 0
  rw [Machine.aloneFrame, Machine.alone, Machine.frame_of_not_halted hrunning,
    show (m.setKeys .released).settings.perFrame = 1 + 1 from hbatch]
  exact ⟨hresult.trans hresult', hstate.trans hstate'⟩

theorem aloneFrame_of_draw_ret (hpc : m.pc + 2 + 2 ≤ Memory.size)
    (hdraw : m.nextWord.Spells (.draw x y n))
    (hret : (m.memory.wordAt (m.pc + 2)).Spells .ret) (hfits : m.index + n ≤ Memory.size)
    (hstack : m.stack = []) :
    (m.aloneFrame 0).result = .error (.raised ⟨m.pc + 2, .stackUnderflow⟩) ∧
      (m.aloneFrame 0).state.screen = m.screen.xor (m.sprite x y n) := by
  have hpc' : m.pc + 2 ≤ Memory.size := Nat.le_of_add_right_le hpc
  have hrunning : (m.setKeys .released).isHalted = false := Machine.isHalted_of_running hrun
  have hin := inBounds_kept.countDown (inBounds_kept.setKeys hm .released) hrunning
  obtain ⟨hin', hresult, hstate⟩ :=
    Machine.repeated_step_of_effect hin hrun hpc' hdraw (Instruction.rangeCause?_of_le hfits) 1
  obtain ⟨hresult', hstate'⟩ :=
    Machine.repeated_step_of_cause hin' hrun hpc hret (if_pos hstack) 0
  rw [Machine.aloneFrame, Machine.alone, Machine.frame_of_not_halted hrunning,
    show (m.setKeys .released).settings.perFrame = 1 + 1 from hbatch, hresult, hstate, hresult',
    hstate']
  exact ⟨rfl, rfl⟩

omit hm in
theorem aloneFrame_of_redraw (hpc : m.pc + 2 + 2 ≤ Memory.size)
    (hdraw : m.nextWord.Spells (.draw x y n))
    (hret : (m.memory.wordAt (m.pc + 2)).Spells .ret) (hfits : m.index + n ≤ Memory.size)
    (hstack : m.stack = []) (hx : x ≠ 0xF) (hy : y ≠ 0xF)
    (hdrawn : ((Instruction.draw x y n).effect m).takeFrame.2.InBounds) :
    let drawn := ((Instruction.draw x y n).effect m).takeFrame.2
    (drawn.aloneFrame 0).result = .error (.raised ⟨m.pc + 2, .stackUnderflow⟩) ∧
      (drawn.aloneFrame 0).state.screen = m.screen := by
  intro drawn
  have hrun' : drawn.status = .running := hrun
  have hbatch' : drawn.settings.perFrame = 2 := hbatch
  have hdraw' : drawn.nextWord.Spells (.draw x y n) := hdraw
  have hret' : (drawn.memory.wordAt (drawn.pc + 2)).Spells .ret := hret
  have hsprite : drawn.sprite x y n = m.sprite x y n := Machine.sprite_effect_draw hx hy n
  obtain ⟨hfails, hscreen⟩ :=
    aloneFrame_of_draw_ret hdrawn hrun' hbatch' hpc hdraw' hret' hfits hstack
  refine ⟨hfails, ?_⟩
  rw [hscreen, hsprite]
  exact Screen.xor_xor_cancel _ _

/-- A sprite that is drawn in a frame, and drawn again in the next before that fails: the second
frame begins with the sprite and ends without it. -/
theorem aloneFrames_of_draws (hpc : m.pc + 2 + 2 + 2 + 2 ≤ Memory.size) {target : Target}
    (hindex : m.nextWord.Spells (.setIndex target))
    (hdraw : (m.memory.wordAt (m.pc + 2)).Spells (.draw x y n))
    (hagain : (m.memory.wordAt (m.pc + 2 + 2)).Spells (.draw x y n))
    (hret : (m.memory.wordAt (m.pc + 2 + 2 + 2)).Spells .ret) (hstack : m.stack = [])
    (hfits : target.val + n ≤ Memory.size) (hx : x ≠ 0xF) (hy : y ≠ 0xF) :
    (m.aloneFrame 0).result = .ok () ∧
    (m.alone 1).screen = m.screen.drawn ⟨{ m with index := target.val }, .draw x y n⟩ ∧
    (m.aloneFrame 1).result = .error (.raised ⟨m.pc + 2 + 2 + 2, .stackUnderflow⟩) ∧
    (m.aloneFrame 1).state.screen = m.screen := by
  let ready := { m.countDown with pc := m.pc + 2 + 2, index := target.val, keys := .released }
  have hpc₂ : m.pc + 2 + 2 ≤ Memory.size := by omega
  obtain ⟨hok, hstate⟩ := aloneFrame_of_draw hm hrun hbatch hpc₂ hindex hdraw hfits
  have hnext : m.alone 1 = ((Instruction.draw x y n).effect ready).takeFrame.2 := by
    rw [Machine.alone_succ hok, hstate]
  have hin : (m.alone 1).InBounds := Machine.inBounds_alone hm 1
  rw [hnext] at hin
  obtain ⟨hfails, hscreen⟩ :=
    aloneFrame_of_redraw (m := ready) hrun hbatch hpc hagain hret hfits hstack hx hy hin
  rw [← hnext] at hfails hscreen
  refine ⟨hok, ?_, hfails, hscreen⟩
  rw [hnext]
  rfl

end Draws

/-- A050 D005 D005 00EE, two steps a frame: the first frame draws a digit and is completed, the
second puts it out again and ends in a fault.  What is printed is the digit, though the machine
is left with a dark screen. -/
theorem printed_after_run_of_draw :
    let rom : List UInt8 := [0xA0, 0x50, 0xD0, 0x05, 0xD0, 0x05, 0x00, 0xEE]
    let start := ((Machine.idle { speed := 120 } (⟨0, 1⟩ : Counter)).load rom).state
    let final := Console.run .throttled ⟨start, Terminal.ofFrames 3 start.screen⟩
    final.result = .error (.raised ⟨0x206, .stackUnderflow⟩) ∧
    final.state.host.screen = (start.alone 1).screen ∧
    final.state.host.screen.pixel 0 0 = true ∧
    final.state.machine.screen = .blank ∧
    final.state.host.screen.Shown final.state.host.lines := by
  intro rom
  have hrom : rom.length ≤ 3584 := by decide
  let loaded := (Machine.idle { speed := 120 } (⟨0, 1⟩ : Counter)).loaded rom
  have hload : ((Machine.idle { speed := 120 } (⟨0, 1⟩ : Counter)).load rom).state = loaded := by
    rw [Machine.load_of_le _ hrom]
  have hpc : loaded.pc + 2 + 2 + 2 + 2 ≤ Memory.size :=
    show 0x200 + 2 + 2 + 2 + 2 ≤ 0x1000 by decide
  have hindex : loaded.nextWord.Spells (.setIndex 0x050) :=
    Machine.spells_loaded (k := 0) _ (by decide) rfl rfl ⟨rfl, rfl⟩
  have hdraw : (loaded.memory.wordAt (loaded.pc + 2)).Spells (.draw 0 0 5) :=
    Machine.spells_loaded (k := 2) _ (by decide) rfl rfl ⟨rfl, rfl, rfl, rfl⟩
  have hagain : (loaded.memory.wordAt (loaded.pc + 2 + 2)).Spells (.draw 0 0 5) :=
    Machine.spells_loaded (k := 4) _ (by decide) rfl rfl ⟨rfl, rfl, rfl, rfl⟩
  have hret : (loaded.memory.wordAt (loaded.pc + 2 + 2 + 2)).Spells .ret :=
    Machine.spells_loaded (k := 6) _ (by decide) rfl rfl rfl
  have hrow : loaded.memory.byteAt 0x50 = 0xF0 := byteAt_loaded_eq_layout _ _ (by decide)
  obtain ⟨hfirst, hdrawn, hfails, hdark⟩ := aloneFrames_of_draws (m := loaded)
    (inBounds_loaded _ _) rfl (by decide) hpc hindex hdraw hagain hret rfl (by decide) (by decide)
    (by decide)
  have hlaw := printed_after_run { speed := 120 } (⟨0, 1⟩ : Counter) hrom .throttled 3
  -- left as definitions, the machines would be computed when the two are compared
  dsimp only at hlaw ⊢
  rw [hload] at hlaw ⊢
  obtain ⟨k, hdone, hends, hscreen, -, -, hshown⟩ := hlaw
  have hbefore : ∀ i < 1, (loaded.aloneFrame i).result = .ok () := by
    intro i hi
    cases Nat.lt_one_iff.mp hi
    exact hfirst
  obtain ⟨rfl, hresult, hmachine⟩ := hends.of_fault hdone (by decide) hbefore hfails
  refine ⟨hresult, hscreen, ?_, ?_, hshown⟩
  · have hcovers := covers_digit (m := { loaded with index := (0x050 : Target).val }) rfl rfl hrow
    have hblank : loaded.screen.pixel 0 0 = false := Screen.pixel_blank 0 0
    rw [hscreen, hdrawn, pixel_drawn (by intro h; cases h) (by decide) (by decide), hcovers, hblank]
    rfl
  · rw [hmachine, hdark]
    rfl

end Chip8
