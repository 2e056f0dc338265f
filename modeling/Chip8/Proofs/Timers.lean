/-
# `Chip8.Proofs.Timers` — sixty times a second

A timer goes down by one at the start of every frame, and stops at zero.  One instruction
sets it, FX15 the delay timer and FX18 the sound timer, and no other touches it.  So it goes
by the frames, at whatever speed the instructions run:

    not set in n frames                 d − n, if d was left at first
    set to v last, in the j-th of n     v − (n − j)

and nothing below zero (`timers_follow_frames`).  A frame counts before it runs, so the one
that sets a timer does not take from what it sets, and one that ends with a fault has counted
like any other.  After the fault nothing counts any more.
-/
import Chip8.Host.Terminal
import Chip8.Proofs.BatchSize

namespace Chip8

/-! ## Counting down -/

namespace Machine

variable {R : Type} (m : Machine R)

/-- Both timers `n` lower, down to zero. -/
def countedDown (n : Nat) : Machine R :=
  { m with delay := .ofNat (m.delay.toNat - n), sound := .ofNat (m.sound.toNat - n) }

theorem toNat_timer_countedDown (n : Nat) (t : Timer) :
    ((m.countedDown n).timer t).toNat = (m.timer t).toNat - n := by
  have hfits : ∀ b : UInt8, (UInt8.ofNat (b.toNat - n)).toNat = b.toNat - n := by
    intro b
    have hlt := b.toNat_lt
    rw [UInt8.toNat_ofNat', Nat.mod_eq_of_lt (by omega)]
  cases t with
  | delay => exact hfits m.delay
  | sound => exact hfits m.sound

theorem countedDown_zero : m.countedDown 0 = m := by
  simp [countedDown]

theorem countedDown_countedDown (n k : Nat) :
    (m.countedDown n).countedDown k = m.countedDown (n + k) := by
  have hdelay : (m.countedDown n).delay.toNat = m.delay.toNat - n :=
    m.toNat_timer_countedDown n .delay
  have hsound : (m.countedDown n).sound.toNat = m.sound.toNat - n :=
    m.toNat_timer_countedDown n .sound
  rw [countedDown, hdelay, hsound, Nat.sub_sub, Nat.sub_sub]
  rfl

theorem countDown_eq : m.countDown = m.countedDown 1 := by
  have hdown : ∀ b : UInt8, (if b = 0 then 0 else b - 1) = .ofNat (b.toNat - 1) := by
    intro b
    by_cases hb : b = 0
    · rw [if_pos hb, hb]
      rfl
    · have hpos : 1 ≤ b.toNat := Nat.pos_of_ne_zero fun h => hb (UInt8.toNat_inj.mp h)
      rw [if_neg hb, UInt8.ofNat_sub hpos, UInt8.ofNat_toNat]
      rfl
  rw [countDown, hdown, hdown]
  rfl

end Machine

/-! ## What executions set a timer to -/

section Sets
variable {R : Type} (t : Timer)

def Execution.sets? (e : Execution R) : Option UInt8 := e.instruction.sets? e.before t

/-- What some executions set a timer to last, if one of them does. -/
def lastSet? (executions : List (Execution R)) : Option UInt8 :=
  executions.reverse.findSome? (Execution.sets? t)

theorem lastSet?_singleton (e : Execution R) : lastSet? t [e] = e.sets? t := by
  simp [lastSet?]

theorem getD_lastSet?_append (h k : List (Execution R)) (b : UInt8) :
    (lastSet? t (h ++ k)).getD b = (lastSet? t k).getD ((lastSet? t h).getD b) := by
  rw [lastSet?, List.reverse_append, List.findSome?_append, ← lastSet?, ← lastSet?]
  cases lastSet? t k <;> rfl

end Sets

/-! ## Steps and batches -/

namespace Machine

variable {R : Type} [RandomSource R] {m : Machine R} {t : Timer}

theorem execute_of_sets {i : Instruction} {b : UInt8} (hset : i.sets? m t = some b)
    (m' : Machine R) : (m'.execute i).result = .ok () := by
  cases i with
  | setDelay _ | setSound _ => rfl
  | _ => cases t <;> cases hset

/-- A step leaves on a timer what it sets it to, or else what there was. -/
theorem timer_step (m : Machine R) (t : Timer) :
    m.step.state.timer t = (lastSet? t m.executes).getD (m.timer t) := by
  have hstep : m.step.state.timer t =
      (m.attempted?.bind fun i => i.sets? m t).getD (m.timer t) := by
    rw [step_state]
    cases t <;> rfl
  rw [hstep]
  cases hi : m.attempted? with
  | none =>
      have hnone : m.executes = [] := by
        apply List.eq_nil_iff_forall_not_mem.mpr
        intro e he
        rw [attempted_of_executed he] at hi
        cases hi
      rw [hnone]
      rfl
  | some i =>
      rw [Option.bind_some]
      cases hset : i.sets? m t with
      | some b =>
          rw [executes_of_attempted hi (execute_of_sets hset _), lastSet?_singleton,
            Execution.sets?, hset]
      | none =>
          have hnone : lastSet? t m.executes = none := by
            apply List.findSome?_eq_none_iff.mpr
            intro e he
            rw [List.mem_reverse] at he
            have hsame := attempted_of_executed he
            rw [hi, Option.some.injEq] at hsame
            rw [Execution.sets?, before_of_executed he, ← hsame, hset]
          rw [hnone]

theorem timer_batch (n : Nat) (m : Machine R) (t : Timer) :
    (Outcome.repeated step n (.done () m)).state.timer t =
      (lastSet? t (batch n m)).getD (m.timer t) := by
  induction n generalizing m with
  | zero => rfl
  | succ n ih =>
      have hstep := timer_step m t
      rw [Outcome.repeated_done_succ, batch]
      cases hr : m.step.result with
      | error e =>
          rw [executes_of_error hr] at hstep
          rw [Outcome.andThen_of_error _ hr]
          exact hstep
      | ok _ =>
          rw [Outcome.andThen_of_ok _ hr]
          dsimp only
          rw [ih, hstep, getD_lastSet?_append]

/-! ## Frames -/

theorem timer_frame (hm : m.isHalted = false) (t : Timer) :
    m.frame.state.timer t = (lastSet? t m.frameHistory).getD (m.countDown.timer t) := by
  rw [frame_of_not_halted hm, timer_batch, frameHistory, if_neg (Bool.eq_false_iff.mp hm)]

theorem isHalted_frame_of_ok (hok : m.frame.result = .ok ()) : m.frame.state.isHalted = false := by
  apply Bool.eq_false_iff.mpr
  intro hhalted
  obtain ⟨fault, hfault⟩ := isHalted_iff.mp hhalted
  rw [← frame_raised_iff, hok] at hfault
  cases hfault

theorem isHalted_frames_of_ok (hm : m.isHalted = false) {n : Nat}
    (hok : (m.frames n).result = .ok ()) : (m.frames n).state.isHalted = false :=
  Outcome.repeated_preserves_of_ok (P := fun s : Machine R => s.isHalted = false) frame
    (fun _ _ hok => isHalted_frame_of_ok hok) n hm hok

theorem frames_succ_of_ok {n : Nat} (hok : (m.frames n).result = .ok ()) :
    (m.frames (n + 1)).result = (m.frames n).state.frame.result ∧
      (m.frames (n + 1)).state = (m.frames n).state.frame.state := by
  have hsplit : m.frames (n + 1) = (m.frames n).andThen fun _ s => s.frame := by
    rw [frames, Outcome.repeated_add]
    simp only [Outcome.repeated_one]
    rfl
  rw [hsplit, Outcome.andThen_of_ok _ hok]
  exact ⟨rfl, rfl⟩

theorem frames_ok_of_le {k n : Nat} (hkn : k ≤ n) (hok : (m.frames n).result = .ok ()) :
    (m.frames k).result = .ok () := by
  obtain ⟨d, rfl⟩ := Nat.exists_eq_add_of_le hkn
  cases hk : (m.frames k).result with
  | ok _ => rfl
  | error e =>
      rw [frames, Outcome.repeated_add, ← frames, Outcome.andThen_of_error _ hk] at hok
      cases hok

theorem frameHistory_of_one (hm : m.isHalted = false) (hone : m.settings.perFrame = 1) :
    m.frameHistory = m.countDown.executes := by
  rw [frameHistory, if_neg (Bool.eq_false_iff.mp hm), hone, batch_succ, Outcome.rest]
  cases m.countDown.step.result <;> exact List.append_nil _

/-- What the `j`-th of some frames executes, counted from one. -/
def nthFrame (j : Nat) (m : Machine R) : List (Execution R) :=
  (m.frames (j - 1)).state.frameHistory

/-- A frame that sets a timer leaves on it what it sets it to. -/
theorem timer_frames_of_set (hm : m.isHalted = false) {j : Nat} (hj : 1 ≤ j)
    (hok : (m.frames (j - 1)).result = .ok ()) {v : UInt8}
    (hset : lastSet? t (m.nthFrame j) = some v) : (m.frames j).state.timer t = v := by
  obtain ⟨i, rfl⟩ := Nat.exists_eq_add_one.mpr hj
  rw [Nat.add_sub_cancel] at hok
  rw [nthFrame, Nat.add_sub_cancel] at hset
  rw [(frames_succ_of_ok hok).2, timer_frame (isHalted_frames_of_ok hm hok), hset]
  rfl

/-- As long as no frame sets it, a timer goes down by one a frame. -/
theorem timer_frames_of_unset (hm : m.isHalted = false) {j n : Nat} (hjn : j ≤ n)
    (hok : (m.frames (n - 1)).result = .ok ())
    (hunset : ∀ k, j < k → k ≤ n → lastSet? t (m.nthFrame k) = none) :
    ((m.frames n).state.timer t).toNat = ((m.frames j).state.timer t).toNat - (n - j) := by
  induction hjn with
  | refl => rw [Nat.sub_self, Nat.sub_zero]
  | @step n hjn ih =>
      have hjn : j ≤ n := hjn
      rw [Nat.succ_sub_one] at hok
      have hbefore := ih (frames_ok_of_le (Nat.sub_le n 1) hok)
        fun k hjk hkn => hunset k hjk (Nat.le_succ_of_le hkn)
      have hlast := hunset (n + 1) (Nat.lt_succ_of_le hjn) (Nat.le_refl _)
      rw [nthFrame, Nat.add_sub_cancel] at hlast
      rw [(frames_succ_of_ok hok).2, timer_frame (isHalted_frames_of_ok hm hok), hlast,
        Option.getD_none, countDown_eq, toNat_timer_countedDown, hbefore]
      omega

end Machine

/-! ## Runs of frames -/

section Runs
variable {R H : Type} [RandomSource R] [Host H]

theorem after_frames_of_halted {m : Machine R} {fault : Fault} (h : m.status = .halted fault)
    (k : Nat) : after (List.replicate k (.frame : Call H)) m = m := by
  have hframe : ((.frame : Call H).perform m).state = m := congrArg Outcome.state
    (Machine.frame_of_halted h)
  induction k with
  | zero => rfl
  | succ k ih => rw [List.replicate_succ, after_cons, hframe, ih]

/-- After n frames, of which only the last may fail, a timer that was not set has gone down by
n, and one that was set last in the j-th of them by the frames since; the buzzer sounds as long
as something is left on its timer.  Frames after a fault leave both timers alone. -/
theorem timers_follow_frames {m : Machine R} (hm : m.isHalted = false) {n : Nat}
    (hok : (m.frames (n - 1)).result = .ok ()) :
    let final := (m.frames n).state
    (∀ t : Timer,
      ((∀ k, 1 ≤ k → k ≤ n → lastSet? t (m.nthFrame k) = none) →
        (final.timer t).toNat = (m.timer t).toNat - n) ∧
      ∀ j, 1 ≤ j → j ≤ n → ∀ v, lastSet? t (m.nthFrame j) = some v →
        (∀ k, j < k → k ≤ n → lastSet? t (m.nthFrame k) = none) →
          (final.timer t).toNat = v.toNat - (n - j)) ∧
    (final.soundOn = true ↔ 0 < (final.timer .sound).toNat) ∧
    ∀ fault, (m.frames n).result = .error (.raised fault) → ∀ (t : Timer) (k : Nat),
      (after (List.replicate k (.frame : Call H)) final).timer t = final.timer t := by
  intro final
  refine ⟨fun t => ⟨?_, ?_⟩, ?_, ?_⟩
  · intro hunset
    exact Machine.timer_frames_of_unset hm (Nat.zero_le n) hok hunset
  · intro j hj hjn v hset hunset
    have hset := Machine.timer_frames_of_set hm hj
      (Machine.frames_ok_of_le (Nat.sub_le_sub_right hjn 1) hok) hset
    rw [← hset]
    exact Machine.timer_frames_of_unset hm hjn hok hunset
  · exact decide_eq_true_iff.trans UInt8.lt_iff_toNat_lt
  · intro fault hfault t k
    obtain ⟨i, -, -, hlast, hstate⟩ := Outcome.repeated_eq_error Machine.frame hfault
    have hhalted : final.status = .halted fault := by
      rw [show final = _ from hstate]
      exact (Machine.frame_raised_iff _ fault).mp hlast
    rw [after_frames_of_halted hhalted]

theorem frames_of_set_ret {m : Machine R} (hm : m.InBounds) (hrun : m.status = .running)
    (hone : m.settings.perFrame = 1) (hpc : m.pc + 2 + 2 ≤ Memory.size) {x : Fin 16}
    (hset : m.nextWord.Spells (.setDelay x)) (hret : (m.memory.wordAt (m.pc + 2)).Spells .ret)
    (hstack : m.stack = []) :
    (m.frames 1).result = .ok () ∧ m.nthFrame 1 = [⟨m.countDown, .setDelay x⟩] ∧
      m.nthFrame 2 = [] ∧
      (m.frames 2).result = .error (.raised ⟨m.pc + 2, .stackUnderflow⟩) := by
  have hhalted := Machine.isHalted_of_running hrun
  have hdown : m.countDown.InBounds := inBounds_kept.countDown hm hhalted
  have hpc₁ : m.pc + 2 ≤ Memory.size := Nat.le_of_add_right_le hpc
  have hstep := Machine.step_of_effect hdown hrun hpc₁ hset rfl
  have hframe := Machine.frame_of_one hhalted hone
  obtain ⟨hresult, hstate⟩ := Machine.frames_succ_of_ok (m := m) (n := 0) rfl
  have hok : (m.frames 1).result = .ok () := by
    rw [hresult, show (m.frames 0).state = m from rfl, hframe, hstep]
  let s := Instruction.effect m.countDown.past (.setDelay x)
  have hs : (m.frames 1).state = s := by
    rw [hstate, show (m.frames 0).state = m from rfl, hframe, hstep]
  have hin : s.countDown.InBounds := (hdown.past hpc₁).of_eq rfl rfl rfl
  have hcause : Instruction.ret.cause? s.countDown.past = some .stackUnderflow := if_pos hstack
  have hfails : s.countDown.step.result = .error (.raised ⟨m.pc + 2, .stackUnderflow⟩) := by
    rw [Machine.step_of_spells hin hrun hpc hret, hcause]
    rfl
  have hhalted₂ : s.isHalted = false := Machine.isHalted_of_running hrun
  refine ⟨hok, ?_, ?_, ?_⟩
  · rw [show m.nthFrame 1 = m.frameHistory from rfl, Machine.frameHistory_of_one hhalted hone]
    exact Machine.executes_of_effect hdown hrun hpc₁ hset rfl
  · rw [Machine.nthFrame, hs, Machine.frameHistory_of_one hhalted₂ hone]
    exact Machine.executes_of_error hfails
  · rw [(Machine.frames_succ_of_ok hok).1, hs, Machine.frame_of_one hhalted₂ hone, hfails]

end Runs

/-- FA15 00EE with nines in all registers and one step a frame: the second frame fails, and has
taken one from what the first has set. -/
theorem timers_follow_frames_of_ret :
    let rom : List UInt8 := [0xFA, 0x15, 0x00, 0xEE]
    let loaded := (Machine.idle { speed := 60 } (⟨0, 1⟩ : Counter)).loaded rom
    let m := { loaded with v := .replicate 16 9, sound := 1 }
    let final := (m.frames 2).state
    (final.timer .delay).toNat = 8 ∧ (final.timer .sound).toNat = 0 ∧ final.soundOn = false ∧
      ((after (List.replicate 3 (.frame : Call Terminal)) final).timer .delay).toNat = 8 := by
  intro rom loaded m final
  have hin : m.InBounds := (inBounds_loaded rom _ : loaded.InBounds).of_eq rfl rfl rfl
  have hpc : m.pc + 2 + 2 ≤ Memory.size := show 0x200 + 2 + 2 ≤ 0x1000 by decide
  have hset : loaded.nextWord.Spells (.setDelay 0xA) :=
    Machine.spells_loaded (k := 0) _ (by decide) rfl rfl ⟨rfl, rfl, rfl⟩
  have hret : (loaded.memory.wordAt (loaded.pc + 2)).Spells .ret :=
    Machine.spells_loaded (k := 2) _ (by decide) rfl rfl rfl
  obtain ⟨hok, hfirst, hsecond, hfails⟩ :=
    frames_of_set_ret hin rfl (by decide) hpc hset hret rfl
  obtain ⟨htimer, hbuzzer, hafter⟩ :=
    timers_follow_frames (H := Terminal) (m := m) (n := 2) (by decide) hok
  have hdelay : (final.timer .delay).toNat = 8 := by
    refine (htimer .delay).2 1 (by decide) (by decide) 9 (by rw [hfirst]; rfl) ?_
    intro k hk hk₂
    obtain rfl : k = 2 := Nat.le_antisymm hk₂ hk
    rw [hsecond]
    rfl
  have hsound : (final.timer .sound).toNat = 0 := by
    refine (htimer .sound).1 ?_
    intro k hk hk₂
    obtain rfl | rfl : k = 1 ∨ k = 2 := by omega
    · rw [hfirst]
      rfl
    · rw [hsecond]
      rfl
  refine ⟨hdelay, hsound, ?_, ?_⟩
  · rw [Bool.eq_false_iff, ne_eq, hbuzzer, hsound]
    decide
  · rw [hafter _ hfails .delay 3]
    exact hdelay

end Chip8
