/-
# `Chip8.Proofs.History` — what was executed

An *execution* is an instruction that was run to its end, together with the
machine at the start of its step.  Each call has its executions, oldest first
(`Call.history`): a step one or none, a frame those of its batch up to the
first fault, and the calls that run nothing none at all.

Many parts of a machine change only by what is executed, and each execution
changes them in a way of its own (`Follows`).  Such a part is, after any calls
but loads, what the executions in their order make of it (`Follows.after`).
-/
import Chip8.Proofs.Calls

namespace Chip8

/-- An instruction that was run to its end, and the machine before. -/
structure Execution (R : Type) where
  before : Machine R
  instruction : Instruction

/-! ## Histories -/

namespace Machine

variable {R : Type} [RandomSource R]

def executes (m : Machine R) : List (Execution R) :=
  match m.status, m.step.result, Instruction.decode? m.nextWord with
  | .running, .ok (), some i => [⟨m, i⟩]
  | _, _, _ => []

/-- What up to `n` steps execute, the first fault being the last of them. -/
def batch : Nat → Machine R → List (Execution R)
  | 0, _ => []
  | n + 1, m =>
      match m.step.result with
      | .ok () => m.executes ++ batch n m.step.state
      | .error _ => []

/-- What a frame executes. -/
def frameHistory (m : Machine R) : List (Execution R) :=
  if m.isHalted then [] else batch m.settings.perFrame m.countDown

end Machine

section Histories
variable {R H : Type} [RandomSource R] [Host H]

def Call.history : Call H → Machine R → List (Execution R)
  | .step, m => m.executes
  | .frame, m => m.frameHistory
  | .refresh keys, m => (m.setKeys keys).frameHistory
  | .tick host, m => (m.setKeys (Host.keys host).1).frameHistory
  | _, _ => []

/-- What a sequence of calls executes. -/
def history : List (Call H) → Machine R → List (Execution R)
  | [], _ => []
  | c :: calls, m => c.history m ++ history calls (c.perform m).state

end Histories

/-! ## Executing is stepping without a fault -/

namespace Machine

variable {R : Type} [RandomSource R] {m : Machine R}

theorem executes_of_not_running (h : m.status ≠ .running) : m.executes = [] := by
  unfold executes
  split
  · next hrun _ _ => exact absurd hrun h
  · rfl

theorem executes_of_error {e : Stop Fault} (h : m.step.result = .error e) : m.executes = [] := by
  unfold executes
  split
  · next hok _ => rw [h] at hok; cases hok
  · rfl

theorem executes_of_ok {i : Instruction} (hrun : m.status = .running)
    (hok : m.step.result = .ok ()) (hword : m.nextWord.Spells i) : m.executes = [⟨m, i⟩] := by
  simp only [executes, hrun, hok, Instruction.decode?_eq_some_iff.mpr hword]

theorem executes_of_effect {i : Instruction} (hm : m.InBounds) (hrun : m.status = .running)
    (hpc : m.pc + 2 ≤ Memory.size) (hword : m.nextWord.Spells i)
    (hcause : i.cause? m.past = none) : m.executes = [⟨m, i⟩] := by
  refine executes_of_ok hrun ?_ hword
  rw [step_of_effect hm hrun hpc hword hcause]

theorem attempted_of_executed {m : Machine R} {e : Execution R} (he : e ∈ m.executes) :
    m.attempted? = some e.instruction := by
  unfold executes at he
  split at he
  · next i hrun hok hword =>
      rw [List.mem_singleton.mp he]
      refine attempted?_eq_some_iff.mpr ⟨⟨hrun, ?_⟩, hword⟩
      apply Classical.byContradiction
      intro hpc
      obtain ⟨e, -, hstep⟩ := step_of_not_le hrun hpc
      rw [hstep] at hok
      cases e <;> cases hok
  · exact absurd he List.not_mem_nil

theorem executes_of_attempted {m : Machine R} {i : Instruction} (hi : m.attempted? = some i)
    (hok : (m.past.execute i).result = .ok ()) : m.executes = [⟨m, i⟩] := by
  obtain ⟨⟨hrun, hpc⟩, hword⟩ := attempted?_eq_some_iff.mp hi
  refine executes_of_ok hrun ?_ (Instruction.decode?_eq_some_iff.mp hword)
  rw [step_of_le hrun hpc]
  simp only [executeWord, hword, haltOnError, hok]

theorem before_of_executed {m : Machine R} {e : Execution R} (he : e ∈ m.executes) :
    e.before = m := by
  unfold executes at he
  split at he
  · rw [List.mem_singleton.mp he]
  · exact absurd he List.not_mem_nil

theorem step_of_executed {m : Machine R} (hm : m.InBounds) {e : Execution R}
    (he : e ∈ m.executes) : m.step.state = e.instruction.effect m.past := by
  obtain ⟨⟨hrun, _⟩, hword⟩ := attempted?_eq_some_iff.mp (attempted_of_executed he)
  cases step_cases hm hrun with
  | unread _ hstep | unknown _ _ hstep | fails _ _ _ _ _ hstep =>
      rw [executes_of_error (by rw [hstep])] at he
      exact absurd he List.not_mem_nil
  | runs _ i hspells _ hstep =>
      rw [Instruction.decode?_eq_some_iff.mpr hspells, Option.some.injEq] at hword
      rw [hstep, hword]

theorem frameHistory_of_halted (h : m.isHalted = true) : m.frameHistory = [] := if_pos h

end Machine

/-- What is executed when I is set and then `i` is run, a key being pressed in between. -/
theorem history_of_setIndex {R H : Type} [RandomSource R] [Host H] {m : Machine R}
    (hm : m.InBounds) (hrun : m.status = .running) (hpc : m.pc + 2 + 2 ≤ Memory.size)
    {target : Target} {i : Instruction} (hset : m.nextWord.Spells (.setIndex target))
    (hword : (m.memory.wordAt (m.pc + 2)).Spells i) (key : Nat) (held : Bool) :
    let next := { m with pc := m.pc + 2, index := target.val, keys := m.keys.set key held }
    i.cause? next.past = none →
      history ([.step, .setKey key held, .step] : List (Call H)) m =
        [⟨m, .setIndex target⟩, ⟨next, i⟩] := by
  intro next hcause
  have hpc' : m.pc + 2 ≤ Memory.size := Nat.le_of_add_right_le hpc
  have hnext : m.step.state.setKey key held = next := by
    rw [Machine.step_of_effect hm hrun hpc' hset rfl]
    rfl
  have hin : next.InBounds := hnext ▸ hm.step.of_eq rfl rfl rfl
  have hfirst := Machine.executes_of_effect hm hrun hpc' hset rfl
  have hsecond := Machine.executes_of_effect hin hrun hpc hword hcause
  show m.executes ++ ([] ++ ((m.step.state.setKey key held).executes ++ [])) = _
  rw [hnext, hfirst, hsecond]
  rfl

/-! ## Parts that follow the executions -/

/-- In steps and frames the part `view` of a machine changes by executions only, and each
changes it by `update`. -/
structure FollowsSteps {R α : Type} [RandomSource R] (view : Machine R → α)
    (update : α → Execution R → α) : Prop where
  countDown : ∀ m, view m.countDown = view m
  halt : ∀ m fault, view (m.halt fault) = view m
  past : ∀ m, view m.past = view m
  spoil : ∀ m i, view (Instruction.spoil m i) = view m
  effect : ∀ m i, m.InBounds → i.cause? m.past = none →
    view (i.effect m.past) = update (view m) ⟨m, i⟩

namespace FollowsSteps

variable {R α : Type} [RandomSource R] {view : Machine R → α} {update : α → Execution R → α}

theorem step (hv : FollowsSteps view update) {m : Machine R} (hm : m.InBounds) :
    view m.step.state = m.executes.foldl update (view m) := by
  cases hstatus : m.status with
  | idle =>
      rw [Machine.step_of_idle hstatus, Machine.executes_of_not_running (by simp [hstatus])]
      rfl
  | halted fault =>
      rw [Machine.step_of_halted hstatus, Machine.executes_of_not_running (by simp [hstatus])]
      rfl
  | running =>
      cases Machine.step_cases hm hstatus with
      | unread _ hstep =>
          rw [Machine.executes_of_error (by rw [hstep]), hstep]
          exact hv.halt m _
      | unknown _ _ hstep =>
          rw [Machine.executes_of_error (by rw [hstep]), hstep]
          exact (hv.halt _ _).trans (hv.past m)
      | fails _ i _ c _ hstep =>
          rw [Machine.executes_of_error (by rw [hstep]), hstep]
          exact (hv.halt _ _).trans ((hv.spoil _ i).trans (hv.past m))
      | runs _ i hword hcause hstep =>
          rw [Machine.executes_of_ok hstatus (by rw [hstep]) hword, hstep]
          exact hv.effect m i hm hcause

theorem batch (hv : FollowsSteps view update) (n : Nat) {m : Machine R} (hm : m.InBounds) :
    view (Outcome.repeated Machine.step n (.done () m)).state =
      (Machine.batch n m).foldl update (view m) := by
  induction n generalizing m with
  | zero => rfl
  | succ n ih =>
      rw [Outcome.repeated_done_succ, Machine.batch]
      cases hr : m.step.result with
      | error e =>
          rw [Outcome.andThen_of_error _ hr]
          have hstep := hv.step hm
          rw [Machine.executes_of_error hr] at hstep
          exact hstep
      | ok _ =>
          rw [Outcome.andThen_of_ok _ hr]
          simp only [List.foldl_append, ← hv.step hm]
          exact ih hm.step

theorem frame (hv : FollowsSteps view update) {m : Machine R} (hm : m.InBounds) :
    view m.frame.state = m.frameHistory.foldl update (view m) := by
  unfold Machine.frameHistory
  cases hhalted : m.isHalted with
  | true =>
      obtain ⟨fault, hfault⟩ := Machine.isHalted_iff.mp hhalted
      rw [Machine.frame_of_halted hfault]
      rfl
  | false =>
      rw [Machine.frame_of_not_halted hhalted, hv.batch _ (inBounds_kept.countDown hm hhalted),
        hv.countDown]
      rfl

end FollowsSteps

/-- The part `view` of a machine changes by executions only, and each changes it by
`update`. -/
structure Follows {R α : Type} [RandomSource R] (view : Machine R → α)
    (update : α → Execution R → α) : Prop where
  setKeys : ∀ m keys, view (m.setKeys keys) = view m
  takeFrame : ∀ m, view m.takeFrame.2 = view m
  countDown : ∀ m, view m.countDown = view m
  halt : ∀ m fault, view (m.halt fault) = view m
  past : ∀ m, view m.past = view m
  spoil : ∀ m i, view (Instruction.spoil m i) = view m
  effect : ∀ m i, m.InBounds → i.cause? m.past = none →
    view (i.effect m.past) = update (view m) ⟨m, i⟩

namespace Follows

variable {R H α : Type} [RandomSource R] [Host H] {view : Machine R → α}
  {update : α → Execution R → α}

theorem inSteps (hv : Follows view update) : FollowsSteps view update :=
  ⟨hv.countDown, hv.halt, hv.past, hv.spoil, hv.effect⟩

theorem step (hv : Follows view update) {m : Machine R} (hm : m.InBounds) :
    view m.step.state = m.executes.foldl update (view m) :=
  hv.inSteps.step hm

theorem serve (hv : Follows view update) {m : Machine R} (hm : m.InBounds) (keys : Keypad) :
    view (m.serve keys) = (m.setKeys keys).frameHistory.foldl update (view m) := by
  have hframe := hv.inSteps.frame (inBounds_kept.setKeys hm keys)
  rw [hv.setKeys] at hframe
  simp only [Machine.serve]
  cases (m.setKeys keys).frame.result with
  | ok _ => exact (hv.takeFrame _).trans hframe
  | error _ => exact hframe

theorem perform (hv : Follows view update) {m : Machine R} (hm : m.InBounds) {c : Call H}
    (hc : ¬c.Loads) : view (c.perform m).state = (c.history m).foldl update (view m) := by
  cases c with
  | load rom => rw [perform_load_of_lt m (Nat.lt_of_not_le hc)]; rfl
  | setKey key held => exact hv.setKeys m _
  | setKeys keys => exact hv.setKeys m keys
  | takeFrame => exact hv.takeFrame m
  | step => exact hv.step hm
  | frame => exact hv.inSteps.frame hm
  | refresh keys => rw [refresh_eq_serve hv.setKeys]; exact hv.serve hm keys
  | tick host => rw [perform_tick]; exact hv.serve hm _

/-- After any calls but loads the part is what their executions made of it. -/
theorem after (hv : Follows view update) {calls : List (Call H)} {m : Machine R}
    (hm : m.InBounds) (hcalls : ∀ c ∈ calls, ¬c.Loads) :
    view (after calls m) = (history calls m).foldl update (view m) := by
  induction calls generalizing m with
  | nil => rfl
  | cons c calls ih =>
      obtain ⟨hc, hrest⟩ := List.forall_mem_cons.mp hcalls
      rw [after_cons, ih (hm.perform c) hrest, hv.perform hm hc, history, List.foldl_append]

/-- A part that a load does not touch either is after any calls what their executions made of it. -/
theorem after_of_loaded (hv : Follows view update)
    (hloaded : ∀ rom m, view (m.loaded rom) = view m) (calls : List (Call H)) {m : Machine R}
    (hm : m.InBounds) : view (Chip8.after calls m) = (history calls m).foldl update (view m) := by
  induction calls generalizing m with
  | nil => rfl
  | cons c calls ih =>
      have hcall : view (c.perform m).state = (c.history m).foldl update (view m) := by
        by_cases hc : c.Loads
        · cases c with
          | load rom => rw [perform_load_of_le m hc]; exact hloaded rom m
          | _ => exact absurd hc id
        · exact hv.perform hm hc
      rw [after_cons, ih (hm.perform c), hcall, history, List.foldl_append]

end Follows

/-! ## Before each execution -/

/-- It was executed, on a machine within bounds whose part `view` was `a`. -/
structure Execution.StartsWith {R α : Type} [RandomSource R] (view : Machine R → α) (a : α)
    (e : Execution R) : Prop where
  inBounds : e.before.InBounds
  executed : e ∈ e.before.executes
  view_eq : view e.before = a

/-- Each of these executions starts with the part as those before it have left it, the
first with `a`. -/
def Threaded {R α : Type} [RandomSource R] (view : Machine R → α) (update : α → Execution R → α) :
    α → List (Execution R) → Prop
  | _, [] => True
  | a, e :: executions => e.StartsWith view a ∧ Threaded view update (update a e) executions

section Threads
variable {R H α : Type} [RandomSource R] [Host H] {view : Machine R → α}
  {update : α → Execution R → α}

theorem threaded_append {a : α} {h h' : List (Execution R)} :
    Threaded view update a (h ++ h') ↔
      Threaded view update a h ∧ Threaded view update (h.foldl update a) h' := by
  induction h generalizing a with
  | nil => simp [Threaded]
  | cons e h ih => simp only [List.cons_append, Threaded, List.foldl_cons, ih, and_assoc]

theorem threaded_executes {m : Machine R} (hm : m.InBounds) :
    Threaded view update (view m) m.executes := by
  have hstarts : ∀ e ∈ m.executes, e.StartsWith view (view m) := by
    intro e he
    have hbefore := Machine.before_of_executed he
    exact ⟨hbefore ▸ hm, by rw [hbefore]; exact he, congrArg view hbefore⟩
  -- at most one instruction is executed
  unfold Machine.executes at hstarts ⊢
  split
  · exact ⟨hstarts _ (by simp [*]), trivial⟩
  · trivial

theorem FollowsSteps.threaded_batch (hv : FollowsSteps view update) (n : Nat) {m : Machine R}
    (hm : m.InBounds) : Threaded view update (view m) (Machine.batch n m) := by
  induction n generalizing m with
  | zero => trivial
  | succ n ih =>
      rw [Machine.batch]
      cases m.step.result with
      | error e => trivial
      | ok _ =>
          refine threaded_append.mpr ⟨threaded_executes hm, ?_⟩
          rw [← hv.step hm]
          exact ih hm.step

theorem FollowsSteps.threaded_frame (hv : FollowsSteps view update) {m : Machine R}
    (hm : m.InBounds) : Threaded view update (view m) m.frameHistory := by
  unfold Machine.frameHistory
  cases hhalted : m.isHalted with
  | true => trivial
  | false =>
      have hbatch := hv.threaded_batch m.settings.perFrame (inBounds_kept.countDown hm hhalted)
      rwa [hv.countDown] at hbatch

theorem Follows.threaded_call (hv : Follows view update) {m : Machine R} (hm : m.InBounds)
    (c : Call H) : Threaded view update (view m) (c.history m) := by
  have hserve : ∀ keys, Threaded view update (view m) (m.setKeys keys).frameHistory := by
    intro keys
    rw [← hv.setKeys m keys]
    exact hv.inSteps.threaded_frame (inBounds_kept.setKeys hm keys)
  cases c with
  | load _ | setKey _ _ | setKeys _ | takeFrame => trivial
  | step => exact threaded_executes hm
  | frame => exact hv.inSteps.threaded_frame hm
  | refresh keys => exact hserve keys
  | tick host => exact hserve _

/-- What a load does not touch either, each execution finds as those before it have left
it. -/
theorem Follows.threaded_history (hv : Follows view update)
    (hloaded : ∀ rom m, view (m.loaded rom) = view m) (calls : List (Call H)) {m : Machine R}
    (hm : m.InBounds) : Threaded view update (view m) (history calls m) := by
  induction calls generalizing m with
  | nil => trivial
  | cons c calls ih =>
      refine threaded_append.mpr ⟨hv.threaded_call hm c, ?_⟩
      have hcall := hv.after_of_loaded hloaded [c] hm
      rw [history, history, List.append_nil] at hcall
      rw [← hcall]
      exact ih (hm.perform c)

end Threads

end Chip8
