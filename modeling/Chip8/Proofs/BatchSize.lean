/-
# `Chip8.Proofs.BatchSize` — the speed is only a matter of time

How many steps a frame runs depends on the speed, and a frame counts the timers
down.  Take time away, and nothing is left of that: two machines that are the same
but for timers, speed and seed run through the same steps, however these are
grouped into frames, until one of them reads a timer.

    n frames of p steps      repeated frame n
    n * p steps              repeated step (n * p)

The two are compared on machines that are `SameButTime` (`frames_tied`): as long
as no FX07 is executed they answer alike, a fault in the middle of a batch
included, and leave machines that are the same but for time.  So frames of
different lengths agree wherever their steps add up (`frames_agree`).
-/
import Chip8.Proofs.Influence

namespace Chip8

variable {R : Type}

/-! ## The same but for time -/

/-- Two machines that differ in nothing but their timers, their speed and their seed. -/
structure Machine.SameButTime (a b : Machine R) : Prop where
  core : a.SameCore b
  keys : a.keys = b.keys
  source : a.source = b.source

/-- No timer has been read: nothing that was executed is an FX07. -/
def ReadsNoTimer (executions : List (Execution R)) : Prop :=
  ∀ e ∈ executions, ∀ x, e.instruction ≠ .getDelay x

theorem readsNoTimer_append {h k : List (Execution R)} :
    ReadsNoTimer (h ++ k) ↔ ReadsNoTimer h ∧ ReadsNoTimer k :=
  List.forall_mem_append

namespace Machine.SameButTime

variable {a b c : Machine R}

theorem refl (a : Machine R) : a.SameButTime a := ⟨rfl, rfl, rfl⟩

theorem symm (h : a.SameButTime b) : b.SameButTime a :=
  ⟨Eq.symm h.core, h.keys.symm, h.source.symm⟩

theorem trans (h : a.SameButTime b) (h' : b.SameButTime c) : a.SameButTime c :=
  ⟨Eq.trans h.core h'.core, h.keys.trans h'.keys, h.source.trans h'.source⟩

theorem countDown (h : a.SameButTime b) : a.countDown.SameButTime b :=
  ⟨h.core, h.keys, h.source⟩

/-- But for FX07, the same is let in. -/
theorem input_eq [RandomSource R] (h : a.SameButTime b) {i : Instruction}
    (hi : ∀ x, i ≠ .getDelay x) : i.input a = i.input b := by
  cases i with
  | skipIfHeld x | skipUnlessHeld x => simp only [Instruction.input, h.keys, h.core.v]
  | awaitKey x => simp only [Instruction.input, h.keys]
  | random x nn => simp only [Instruction.input, h.source]
  | getDelay x => exact absurd rfl (hi x)
  | _ => rfl

end Machine.SameButTime

/-! ## Two runs and what they execute -/

/-- What is executed after an outcome, if the run goes on from it. -/
def Outcome.rest {ε σ β : Type} (o : Outcome ε σ Unit) (later : σ → List β) : List β :=
  match o.result with
  | .ok () => later o.state
  | .error _ => []

/-- Two outcomes with what was executed on the way.  Both have read a timer or
neither has, and then they are alike but for time. -/
structure Tied (h h' : List (Execution R)) (o o' : Outcome Fault (Machine R) Unit) : Prop where
  quiet : ReadsNoTimer h ↔ ReadsNoTimer h'
  alike : ReadsNoTimer h → Outcome.Alike Machine.SameButTime o o'

namespace Tied

variable {h h' : List (Execution R)} {o o' : Outcome Fault (Machine R) Unit}

theorem of_reads (hread : ¬ReadsNoTimer h) (hread' : ¬ReadsNoTimer h') : Tied h h' o o' :=
  ⟨iff_of_false hread hread', fun hquiet => absurd hquiet hread⟩

theorem andThen (ho : Tied h h' o o') {later later' : Machine R → List (Execution R)}
    {next next' : Machine R → Outcome Fault (Machine R) Unit}
    (hnext : o.state.SameButTime o'.state →
      Tied (later o.state) (later' o'.state) (next o.state) (next' o'.state)) :
    Tied (h ++ o.rest later) (h' ++ o'.rest later') (o.andThen fun _ => next)
      (o'.andThen fun _ => next') := by
  by_cases hquiet : ReadsNoTimer h
  · have halike := ho.alike hquiet
    have hquiet' := ho.quiet.mp hquiet
    have hthen := hnext halike.state
    constructor
    · rw [readsNoTimer_append, readsNoTimer_append, iff_true_intro hquiet,
        iff_true_intro hquiet', true_and, true_and, Outcome.rest, Outcome.rest, ← halike.result]
      cases o.result with
      | error e => exact Iff.rfl
      | ok _ => exact hthen.quiet
    · intro hall
      refine halike.andThen fun _ hok => hthen.alike ?_
      have hrest := (readsNoTimer_append.mp hall).2
      rwa [Outcome.rest, hok] at hrest
  · refine of_reads ?_ ?_
    · exact fun hall => hquiet (readsNoTimer_append.mp hall).1
    · exact fun hall => hquiet (ho.quiet.mpr (readsNoTimer_append.mp hall).1)

end Tied

/-! ## Steps -/

namespace Machine

variable [RandomSource R] {a b : Machine R}

/-- What is the same but for time takes the same step, unless that reads a timer. -/
theorem step_tied (h : a.SameButTime b) : Tied a.executes b.executes a.step b.step := by
  by_cases hread : ∃ x, a.attempted? = some (.getDelay x)
  · obtain ⟨x, hx⟩ := hread
    have hx' : b.attempted? = some (.getDelay x) := h.core.attempted? ▸ hx
    refine .of_reads ?_ ?_
    · rw [executes_of_letsIn hx trivial]
      exact fun hquiet => hquiet _ List.mem_cons_self x rfl
    · rw [executes_of_letsIn hx' trivial]
      exact fun hquiet => hquiet _ List.mem_cons_self x rfl
  · have hother : ∀ i, a.attempted? = some i → ∀ x, i ≠ .getDelay x := by
      rintro i hi x rfl
      exact hread ⟨x, hi⟩
    have hquiet : ReadsNoTimer a.executes :=
      fun e he => hother _ (attempted_of_executed he)
    have hquiet' : ReadsNoTimer b.executes :=
      fun e he => hother _ (h.core.attempted? ▸ attempted_of_executed he)
    refine ⟨iff_of_true hquiet hquiet', fun _ => ?_⟩
    have halike := step_alike h.core fun i hi => h.input_eq (hother i hi)
    refine ⟨halike.result, halike.log, halike.state, ?_, ?_⟩
    · rw [a.step_state, b.step_state]
      exact h.keys
    · rw [a.step_state, b.step_state, h.core.attempted?, h.source]

theorem batch_succ (n : Nat) (m : Machine R) :
    batch (n + 1) m = m.executes ++ m.step.rest (batch n) := by
  rw [batch, Outcome.rest]
  cases hr : m.step.result with
  | ok _ => rfl
  | error e => rw [executes_of_error hr, List.append_nil]

theorem batch_add (n k : Nat) (m : Machine R) :
    batch (n + k) m =
      batch n m ++ (Outcome.repeated step n (.done () m)).rest (batch k) := by
  induction n generalizing m with
  | zero => rw [Nat.zero_add]; rfl
  | succ n ih =>
      rw [Nat.succ_add, batch_succ, batch_succ, Outcome.repeated_done_succ, List.append_assoc]
      congr 1
      cases hr : m.step.result with
      | error e => rw [Outcome.andThen_of_error _ hr, Outcome.rest, Outcome.rest, hr]; rfl
      | ok _ =>
          rw [Outcome.andThen_of_ok _ hr, Outcome.rest, Outcome.rest, hr]
          exact ih m.step.state

theorem batch_tied (n : Nat) (h : a.SameButTime b) :
    Tied (batch n a) (batch n b) (.repeated step n (.done () a))
      (.repeated step n (.done () b)) := by
  induction n generalizing a b with
  | zero => exact ⟨Iff.rfl, fun _ => .done h ()⟩
  | succ n ih =>
      rw [batch_succ, batch_succ, Outcome.repeated_done_succ, Outcome.repeated_done_succ]
      exact (step_tied h).andThen ih

/-! ## Frames -/

/-- A frame is its batch, and counts down before it unless the machine is halted. -/
theorem frame_eq_batch (m : Machine R) :
    ∃ start : Machine R, start.SameButTime m ∧
      m.frame = .repeated step m.settings.perFrame (.done () start) ∧
      m.frameHistory = batch m.settings.perFrame start := by
  cases hhalted : m.isHalted with
  | false =>
      refine ⟨m.countDown, (SameButTime.refl m).countDown, frame_of_not_halted hhalted, ?_⟩
      rw [frameHistory, if_neg (Bool.eq_false_iff.mp hhalted)]
  | true =>
      -- the fault is what the first step of the batch answers, and there is a first step
      obtain ⟨fault, hfault⟩ := isHalted_iff.mp hhalted
      obtain ⟨p, hp⟩ : ∃ p, m.settings.perFrame = p + 1 :=
        Nat.exists_eq_add_one.mpr (Nat.le_max_right _ 1)
      have hstep := step_of_halted hfault
      refine ⟨m, .refl m, ?_, ?_⟩
      · rw [frame_of_halted hfault, hp, Outcome.repeated_done_succ, hstep]
        rfl
      · rw [frameHistory_of_halted hhalted, hp, batch, hstep]
        rfl

theorem frame_tied (h : a.SameButTime b) :
    Tied a.frameHistory (batch a.settings.perFrame b) a.frame
      (.repeated step a.settings.perFrame (.done () b)) := by
  obtain ⟨start, hstart, hframe, hhistory⟩ := a.frame_eq_batch
  rw [hframe, hhistory]
  exact batch_tied _ (hstart.trans h)

theorem settings_kept (settings : Settings) :
    Kept fun m : Machine R => m.settings = settings where
  setKeys hm _ := hm
  takeFrame hm := hm
  countDown hm _ := hm
  step := by
    intro m hm
    rw [m.step_state]
    exact hm

/-- Up to `n` frames, a fault being the last of them. -/
def frames (n : Nat) (m : Machine R) : Outcome Fault (Machine R) Unit :=
  .repeated frame n (.done () m)

def framesHistory : Nat → Machine R → List (Execution R)
  | 0, _ => []
  | n + 1, m => m.frameHistory ++ m.frame.rest (framesHistory n)

/-- Frames are tied to as many steps as they add up to, taken by a machine that is the same but
for time. -/
theorem frames_tied (n : Nat) (h : a.SameButTime b) :
    Tied (framesHistory n a) (batch (n * a.settings.perFrame) b) (a.frames n)
      (.repeated step (n * a.settings.perFrame) (.done () b)) := by
  induction n generalizing a b with
  | zero => rw [Nat.zero_mul]; exact ⟨Iff.rfl, fun _ => .done h ()⟩
  | succ n ih =>
      have hsettings : a.frame.state.settings = a.settings := (settings_kept a.settings).frame rfl
      rw [Nat.succ_mul, Nat.add_comm (n * _), framesHistory, frames, Outcome.repeated_done_succ,
        Outcome.repeated_add, batch_add]
      refine (frame_tied h).andThen fun hnext => ?_
      have hrest := ih hnext
      rwa [hsettings] at hrest

/-- Of two machines that are the same but for time, run for frames whose steps add up to
the same number, both complete their frames or both end with the same fault, and they are
the same but for time afterwards, unless the first executes an FX07. -/
theorem frames_agree (h : a.SameButTime b) {n n' : Nat}
    (hcount : n * a.settings.perFrame = n' * b.settings.perFrame)
    (hquiet : ReadsNoTimer (framesHistory n a)) :
    Outcome.Alike SameButTime (a.frames n) (b.frames n') := by
  have hfirst := frames_tied n h
  have hsecond := frames_tied n' (.refl b)
  rw [hcount] at hfirst
  have halike := hfirst.alike hquiet
  have halike' := hsecond.alike (hsecond.quiet.mpr (hfirst.quiet.mp hquiet))
  exact ⟨halike.result.trans halike'.result.symm, halike.log.trans halike'.log.symm,
    halike.state.trans halike'.state.symm⟩

theorem readsNoTimer_of_ret {m : Machine R} (hm : m.InBounds) (hrun : m.status = .running)
    (hpc : m.pc + 2 + 2 ≤ Memory.size) {x : Fin 16} {nn : UInt8}
    (hfirst : m.nextWord.Spells (.setByte x nn))
    (hsecond : (m.memory.wordAt (m.pc + 2)).Spells .ret) (hstack : m.stack = []) (n : Nat) :
    ReadsNoTimer (batch n m) := by
  have hpc' : m.pc + 2 ≤ Memory.size := Nat.le_of_add_right_le hpc
  have hstep := step_of_effect hm hrun hpc' hfirst rfl
  have hnext : m.step.state.step.result = .error (.raised ⟨m.pc + 2, .stackUnderflow⟩) := by
    have hret : m.step.state.nextWord.Spells .ret := by rw [hstep]; exact hsecond
    have hcause : Instruction.ret.cause? m.step.state.past = some .stackUnderflow := by
      rw [hstep]
      exact if_pos hstack
    rw [step_of_spells hm.step (by rw [hstep]; exact hrun) (by rw [hstep]; exact hpc) hret, hcause,
      hstep]
    rfl
  match n with
  | 0 => exact fun _ he => absurd he List.not_mem_nil
  | n + 1 =>
      have hrest : m.step.rest (batch n) = [] := by
        rw [Outcome.rest, hstep, ← congrArg Outcome.state hstep]
        cases n with
        | zero => rfl
        | succ n => rw [batch, hnext]
      rw [batch_succ, hrest, List.append_nil, executes_of_effect hm hrun hpc' hfirst rfl]
      intro e he y hy
      rw [List.mem_singleton.mp he] at hy
      cases hy

theorem framesHistory_one (m : Machine R) : framesHistory 1 m = m.frameHistory := by
  rw [framesHistory, Outcome.rest]
  cases m.frame.result with
  | ok _ => exact List.append_nil _
  | error e => exact List.append_nil _

/-- 6A07 00EE in a frame of three steps, and in three frames of one. -/
theorem frames_agree_of_ret :
    let start := (idle { speed := 180 } (⟨0, 1⟩ : Counter)).loaded [0x6A, 0x07, 0x00, 0xEE]
    let slow := { start with settings := { speed := 1, seed := some 5 }, delay := 9, sound := 3 }
    Outcome.Alike SameButTime (start.frames 1) (slow.frames 3) := by
  intro start slow
  have hsame : start.SameButTime slow := ⟨rfl, rfl, rfl⟩
  have hfirst : start.nextWord.Spells (.setByte 0xA 7) := by
    rw [nextWord_loaded _ rfl rfl]
    exact ⟨rfl, rfl, rfl⟩
  have hsecond : (start.memory.wordAt (start.pc + 2)).Spells .ret := by
    rw [pc_loaded, wordAt_loaded (k := 2) _ (by decide) rfl rfl]
    rfl
  have hpc : start.pc + 2 + 2 ≤ Memory.size := show 0x200 + 2 + 2 ≤ 0x1000 by decide
  have hin : start.InBounds := inBounds_loaded _ _
  have hquiet : ReadsNoTimer (framesHistory 1 start) := by
    rw [framesHistory_one, frameHistory, if_neg (by decide)]
    -- counting down leaves alone what the program and its bounds depend on
    exact readsNoTimer_of_ret (inBounds_kept.countDown hin rfl) rfl hpc hfirst hsecond rfl _
  exact frames_agree hsame (by decide) hquiet

end Machine

end Chip8
