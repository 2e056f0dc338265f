/-
# `Chip8.Proofs.Allowance` — how many frames a terminal grants

A terminal counts down before it answers, and nothing else that is asked of it changes
the count.  So it grants one frame less than the number it keeps, and then no more:

    frames asked for    kept        granted
    0                   1           none
    n                   n + 1       n
    2⁶⁴ − 2             2⁶⁴ − 1     2⁶⁴ − 2
    2⁶⁴ − 1             2⁶⁴ − 1     2⁶⁴ − 2

The last number cannot be kept one too high, and one frame is lost
(`largest_number_loses_a_frame`).  A run comes to its end by itself: with the frames that
were granted, or with a fault before that.
-/
import Chip8.Proofs.Headless
import Chip8.Proofs.KeyWait

namespace Chip8

/-! ## Asking a host -/

/-- What a host can be asked or told by a run. -/
inductive HostCall where
  | keys
  | render (p : Picture)
  | wantsMore
  | pause (time : Nat)
  deriving DecidableEq

/-- What a host answers when it is asked for another frame, in the order of the questions,
with the other calls in between. -/
def HostCall.answers {H : Type} [Host H] : List HostCall → H → List Bool
  | [], _ => []
  | .keys :: calls, h => answers calls (Host.keys h).2
  | .render p :: calls, h => answers calls (Host.render p h)
  | .wantsMore :: calls, h => (Host.wantsMore h).1 :: answers calls (Host.wantsMore h).2
  | .pause time :: calls, h => answers calls (Host.pause time h)

def HostCall.yesThenNo (n asked : Nat) : List Bool :=
  .replicate (min asked n) true ++ .replicate (asked - n) false

namespace HostCall

theorem yesThenNo_succ (n asked : Nat) :
    yesThenNo n (asked + 1) = decide (0 < n) :: yesThenNo (n - 1) asked := by
  cases n with
  | zero => simp [yesThenNo, List.replicate_succ]
  | succ n =>
      have hmin : min (asked + 1) (n + 1) = min asked n + 1 := by omega
      simp [yesThenNo, hmin, List.replicate_succ]

theorem count_yesThenNo (n asked : Nat) : (yesThenNo n asked).count true = min asked n := by
  simp [yesThenNo, List.count_append, List.count_replicate]

theorem answers_terminal (calls : List HostCall) (t : Terminal) :
    answers calls t = yesThenNo (t.framesLeft - 1) (calls.count .wantsMore) := by
  induction calls generalizing t with
  | nil => simp [answers, yesThenNo]
  | cons call calls ih =>
      cases call with
      | keys =>
          rw [List.count_cons_of_ne (by simp), answers]
          exact ih t
      | render p =>
          rw [List.count_cons_of_ne (by simp), answers, ← t.framesLeft_render p]
          exact ih (t.render p)
      | wantsMore =>
          rw [List.count_cons_self, yesThenNo_succ, answers]
          exact congrArg _ (ih t.wantsMore.2)
      | pause time =>
          rw [List.count_cons_of_ne (by simp), answers]
          exact ih t

theorem answers_ofFrames (calls : List HostCall) (frames : Nat) (screen : Screen) :
    answers calls (Terminal.ofFrames frames screen) =
      yesThenNo (min frames (maxFrames - 1)) (calls.count .wantsMore) := by
  rw [answers_terminal, Terminal.framesLeft_ofFrames, Nat.add_sub_cancel]

end HostCall

/-! ## Machines that wait -/

section Waiting
variable {R : Type} [RandomSource R] {m : Machine R} {x : Fin 16}

theorem Machine.AwaitsKey.alone (h : m.AwaitsKey x) (k : Nat) :
    (m.alone k).AwaitsKey x ∧ (m.aloneFrame k).result = .ok () := by
  have hnone : Keypad.released.lowest? = none := by decide
  have hframe : ∀ s : Machine R, s.AwaitsKey x → (s.setKeys .released).frame.result = .ok () ∧
      (s.setKeys .released).frame.state = (s.setKeys .released).countDown :=
    fun s hs => (hs.setKeys .released).frame_of_released hnone
  induction k with
  | zero => exact ⟨h, (hframe m h).1⟩
  | succ k ih =>
      obtain ⟨hwaits, hok⟩ := ih
      have hnext : (m.alone (k + 1)).AwaitsKey x := by
        rw [Machine.alone_succ hok, Machine.aloneFrame, (hframe _ hwaits).2]
        exact ⟨hwaits.running, hwaits.pc_le, hwaits.word⟩
      exact ⟨hnext, (hframe _ hnext).1⟩

omit [RandomSource R] in
theorem awaitsKey_loaded (settings : Settings) (source : R) :
    ((Machine.idle settings source).loaded [0xF0, 0x0A]).AwaitsKey 0 where
  running := rfl
  pc_le := show 0x200 + 2 ≤ 0x1000 by decide
  word := by
    rw [Machine.nextWord_loaded _ rfl rfl]
    exact ⟨rfl, rfl, rfl⟩

theorem run_of_awaitsKey (hm : m.InBounds) (h : m.AwaitsKey x) (pace : Pace) (frames : Nat)
    (screen : Screen) :
    (Console.run pace ⟨m, Terminal.ofFrames frames screen⟩).result =
      .ok (min frames (maxFrames - 1)) := by
  obtain ⟨k, -, hends, -⟩ := run_ends hm pace frames screen
  exact hends.result_of_ok fun j _ => (h.alone j).2

end Waiting

/-! ## The frames that are granted -/

/-- A terminal says yes as many times as it was asked to, and no ever after, whatever else
happens in between.  Only of the largest number it grants one frame less.  A run with it
comes to its end: it answers with the number of frames granted, unless one of them fails, and
it has asked once for each frame it began, and once more if none failed. -/
theorem grants_requested_frames (frames : UInt64) (screen : Screen) :
    let granted := if frames.toNat = maxFrames then maxFrames - 1 else frames.toNat
    let host := Terminal.ofFrames frames.toNat screen
    (∀ calls : List HostCall,
      let asked := calls.count .wantsMore
      HostCall.answers calls host =
        .replicate (min asked granted) true ++ .replicate (asked - granted) false) ∧
    ∀ {R : Type} [RandomSource R] (m : Machine R), m.InBounds → ∀ pace : Pace,
      let final := Console.run pace ⟨m, host⟩
      ((∀ j < granted, (m.aloneFrame j).result = .ok ()) → final.result = .ok granted) ∧
      ∃ k, (∀ j < k, (m.aloneFrame j).result = .ok ()) ∧ RunEnds m granted final k ∧
        final.state.host.framesLeft = granted - k := by
  intro granted host
  have hgranted : min frames.toNat (maxFrames - 1) = granted := by
    have hlt : frames.toNat < UInt64.size := frames.toNat_lt
    have hmax : maxFrames = UInt64.size - 1 := rfl
    simp only [granted]
    split <;> omega
  constructor
  · intro calls asked
    rw [HostCall.answers_ofFrames, hgranted]
    rfl
  · intro R _ m hm pace final
    have hends := run_ends hm pace frames.toNat screen
    rw [hgranted] at hends
    obtain ⟨k, hdone, hends, hleft, -⟩ := hends
    exact ⟨hends.result_of_ok, k, hdone, hends, hleft⟩

/-- F00A under a terminal that was asked for all but the largest number of frames. -/
theorem grants_requested_frames_of_wait :
    let m := (Machine.idle {} (⟨0, 1⟩ : Counter)).loaded [0xF0, 0x0A]
    let host := Terminal.ofFrames (0xFFFFFFFFFFFFFFFE : UInt64).toNat .blank
    HostCall.answers [.wantsMore, .keys, .wantsMore] host = [true, true] ∧
    (Console.run .throttled ⟨m, host⟩).result = .ok 0xFFFFFFFFFFFFFFFE := by
  intro m host
  have hwaits : m.AwaitsKey 0 := awaitsKey_loaded {} _
  obtain ⟨hanswers, hruns⟩ := grants_requested_frames 0xFFFFFFFFFFFFFFFE .blank
  obtain ⟨hfinished, -⟩ := hruns m (inBounds_loaded _ _) .throttled
  exact ⟨hanswers _, hfinished fun j _ => (hwaits.alone j).2⟩

/-- Asked for the largest number of frames a terminal never grants that many, and a run that
nothing stops is a frame short. -/
theorem largest_number_loses_a_frame :
    let frames : UInt64 := 0xFFFFFFFFFFFFFFFF
    let m := (Machine.idle {} (⟨0, 1⟩ : Counter)).loaded [0xF0, 0x0A]
    let host := Terminal.ofFrames frames.toNat .blank
    (∀ calls, (HostCall.answers calls host).count true ≠ frames.toNat) ∧
    host.wantsMore = (true, { host with framesLeft := frames.toNat - 1 }) ∧
    (∀ j, (m.aloneFrame j).result = .ok ()) ∧
    (Console.run .throttled ⟨m, host⟩).result = .ok (frames.toNat - 1) := by
  intro frames m host
  have hwaits : m.AwaitsKey 0 := awaitsKey_loaded {} _
  have hframes : frames.toNat = maxFrames := rfl
  have hgranted : min frames.toNat (maxFrames - 1) = frames.toNat - 1 := by omega
  refine ⟨?_, ?_, fun j => (hwaits.alone j).2, ?_⟩
  · intro calls
    have hmax : 1 ≤ maxFrames := by decide
    rw [HostCall.answers_ofFrames, HostCall.count_yesThenNo]
    omega
  · have hleft := Terminal.framesLeft_ofFrames frames.toNat .blank
    rw [hgranted] at hleft
    exact Terminal.wantsMore_of_left hleft
  · have hrun := run_of_awaitsKey (inBounds_loaded _ _) hwaits .throttled frames.toNat .blank
    rw [hgranted] at hrun
    exact hrun

end Chip8
