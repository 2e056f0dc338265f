/-
# `Chip8.Proofs.Log` — the log tells what was run

Only steps log what programs do: a fetch leaves a record of its word, a fault leaves
one when it halts the machine (`step_log`).  A frame logs what its steps log, a call
what its frame does, and a run what its ticks do, so of all the layers that pass a
fault on none repeats it.  Through any requests then

    the trace     has one record for each step that began with a fetch, in order
    the errors    are the faults that machines fell to, each once

and a machine that is not running adds nothing to either (`log_tells`): all that can be
logged of it is that a program was loaded, that frames were late and that a run ended.
-/
import Chip8.Host.Terminal
import Chip8.Proofs.CallSteps
import Chip8.Proofs.Ticks

namespace Chip8

/-! ## From running to halted -/

namespace Status

/-- The fault that a machine fell to, if it was running and is halted now. -/
def fall? : Status → Status → Option Fault
  | .running, .halted fault => some fault
  | _, _ => none

/-- Without a load a status stays, or is what a running machine fell to. -/
def LeadsTo (s t : Status) : Prop := t = s ∨ s = .running ∧ ∃ fault, t = .halted fault

variable {s t u : Status}

theorem fall?_of_ne_running (h : s ≠ .running) (t : Status) : s.fall? t = none := by
  cases s with
  | running => exact absurd rfl h
  | idle | halted _ => rfl

theorem fall?_of_ne_halted (h : ∀ fault, t ≠ .halted fault) (s : Status) : s.fall? t = none := by
  cases t with
  | halted fault => exact absurd rfl (h fault)
  | idle | running => cases s <;> rfl

theorem fall?_self (s : Status) : s.fall? s = none := by cases s <;> rfl

theorem LeadsTo.trans (hst : s.LeadsTo t) (htu : t.LeadsTo u) : s.LeadsTo u := by
  rcases hst with rfl | ⟨hrun, fault, rfl⟩
  · exact htu
  · rcases htu with rfl | ⟨hrun', -⟩
    · exact .inr ⟨hrun, fault, rfl⟩
    · cases hrun'

/-- Whoever falls, falls once. -/
theorem LeadsTo.fall?_append (hst : s.LeadsTo t) (htu : t.LeadsTo u) :
    (s.fall? t).toList ++ (t.fall? u).toList = (s.fall? u).toList := by
  rcases hst with rfl | ⟨-, fault, rfl⟩
  · rw [fall?_self]
    rfl
  · rcases htu with rfl | ⟨hrun, -⟩
    · rw [fall?_self, Option.toList_none, List.append_nil]
    · cases hrun

end Status

/-! ## Steps -/

namespace Machine

variable {R : Type} [RandomSource R]

/-- The record of a step's fetch, if the machine is running and its next word is in
memory. -/
def traced? (m : Machine R) : Option Event :=
  if m.status = .running ∧ m.pc + 2 ≤ Memory.size then some (.fetched m.pc m.nextWord) else none

/-- The fault that a step falls to. -/
def fall? (m : Machine R) : Option Fault := m.status.fall? m.step.state.status

section Traced
omit [RandomSource R]
variable {m : Machine R}

theorem traced?_of_le (hrun : m.status = .running) (hpc : m.pc + 2 ≤ Memory.size) :
    m.traced? = some (.fetched m.pc m.nextWord) :=
  if_pos ⟨hrun, hpc⟩

theorem traced?_of_lt (hpc : Memory.size < m.pc + 2) : m.traced? = none :=
  if_neg fun h => Nat.not_le_of_lt hpc h.2

theorem traced?_of_not_running (h : m.status ≠ .running) : m.traced? = none :=
  if_neg fun hm => h hm.1

theorem InBounds.fetch_eq_ok_iff (hm : m.InBounds) {word : Word} :
    m.fetch.result = .ok word ↔ m.pc + 2 ≤ Memory.size ∧ word = m.nextWord := by
  rcases Nat.lt_or_ge Memory.size (m.pc + 2) with hlt | hle
  · rw [hm.fetch_of_lt hlt]
    constructor
    · intro h
      cases h
    · rintro ⟨hle, -⟩
      exact absurd hle (Nat.not_le_of_lt hlt)
  · rw [fetch_of_le hle]
    constructor
    · intro h
      cases h
      exact ⟨hle, rfl⟩
    · rintro ⟨-, rfl⟩
      rfl

/-- A running machine that fetches a word leaves a record of which one and where, and there is no
other. -/
theorem InBounds.traced?_eq_some_iff (hm : m.InBounds) {e : Event} :
    m.traced? = some e ↔
      m.status = .running ∧ ∃ word, m.fetch.result = .ok word ∧ e = .fetched m.pc word := by
  constructor
  · intro h
    obtain ⟨⟨hrun, hpc⟩, he⟩ := Option.ite_none_right_eq_some.mp h
    cases he
    exact ⟨hrun, m.nextWord, hm.fetch_eq_ok_iff.mpr ⟨hpc, rfl⟩, rfl⟩
  · rintro ⟨hrun, word, hfetch, rfl⟩
    obtain ⟨hpc, rfl⟩ := hm.fetch_eq_ok_iff.mp hfetch
    exact traced?_of_le hrun hpc

end Traced

theorem step_leadsTo (m : Machine R) : m.status.LeadsTo m.step.state.status := by
  cases hstatus : m.status with
  | idle => rw [step_of_idle hstatus]; exact .inl hstatus
  | halted fault => rw [step_of_halted hstatus]; exact .inl hstatus
  | running =>
      rcases m.step_status with hsame | hfault
      · exact .inl (hsame.trans hstatus)
      · exact .inr ⟨rfl, hfault⟩

theorem fall?_of_ok {m : Machine R} (h : m.step.result = .ok ()) : m.fall? = none := by
  refine Status.fall?_of_ne_halted ?_ _
  intro fault hfault
  rw [(m.step_raised_iff fault).mpr hfault] at h
  cases h

theorem step_log_of_not_running {m : Machine R} (h : m.status ≠ .running) : m.step.log = #[] := by
  cases hstatus : m.status with
  | idle => rw [step_of_idle hstatus]; rfl
  | halted fault => rw [step_of_halted hstatus]; rfl
  | running => exact absurd hstatus h

/-- A step logs its fetch and its fault, if there are any. -/
theorem step_log {m : Machine R} (hm : m.InBounds) :
    m.step.log.toList = m.traced?.toList ++ m.fall?.toList.map .halted := by
  by_cases hrun : m.status = .running
  · cases step_cases hm hrun with
    | unread hpc hstep => rw [traced?_of_lt hpc, fall?, hstep, hrun]; rfl
    | unknown hpc _ hstep => rw [traced?_of_le hrun hpc, fall?, hstep, hrun]; rfl
    | fails hpc _ _ _ _ hstep => rw [traced?_of_le hrun hpc, fall?, hstep, hrun]; rfl
    | runs hpc _ _ _ hstep =>
        rw [traced?_of_le hrun hpc, fall?_of_ok (congrArg Outcome.result hstep), hstep]
        rfl
  · rw [step_log_of_not_running hrun, traced?_of_not_running hrun, fall?,
      Status.fall?_of_ne_running hrun]
    rfl

end Machine

/-! ## Frames -/

namespace Machine

variable {R : Type} [RandomSource R]

/-- What steps log that begin with these machines. -/
def stepLogs (steps : List (Machine R)) : List Event :=
  steps.flatMap fun s => s.step.log.toList

theorem stepLogs_singleton (m : Machine R) : stepLogs [m] = m.step.log.toList :=
  List.flatMap_singleton _ _

theorem batch_log (n : Nat) (m : Machine R) :
    (Outcome.repeated step n (.done () m)).log.toList = stepLogs (begun n m) := by
  induction n generalizing m with
  | zero => rfl
  | succ n ih =>
      rw [Outcome.repeated_done_succ]
      cases hr : m.step.result with
      | error e =>
          rw [Outcome.andThen_of_error _ hr, begun_of_error hr, stepLogs_singleton]
      | ok _ =>
          rw [Outcome.andThen_of_ok _ hr, begun_of_ok hr, stepLogs, List.flatMap_cons,
            Array.toList_append, ih]
          rfl

theorem frame_log (m : Machine R) : m.frame.log.toList = stepLogs m.frameSteps := by
  unfold frameSteps
  cases hhalted : m.isHalted with
  | true =>
      obtain ⟨fault, hfault⟩ := isHalted_iff.mp hhalted
      rw [frame_of_halted hfault]
      rfl
  | false =>
      rw [frame_of_not_halted hhalted]
      exact batch_log _ _

end Machine

/-! ## The log of a call -/

section Logs
variable {R H : Type} [RandomSource R] [Host H]

theorem refresh_log {m : Machine R} (keys : Keypad) :
    (Window.refresh keys m).log.toList = Machine.stepLogs (m.setKeys keys).frameSteps := by
  cases hhalted : m.isHalted with
  | true =>
      rw [Machine.frameSteps, if_pos ((m.isHalted_setKeys keys).trans hhalted), Window.refresh,
        if_pos hhalted]
      rfl
  | false =>
      rw [← Machine.frame_log, Window.refresh, if_neg (Bool.eq_false_iff.mp hhalted)]
      cases hr : (m.setKeys keys).frame.result with
      | ok _ => simp only [hr]
      | error e => cases e <;> simp only [hr]

theorem tick_log (m : Machine R) (host : H) : (Console.tick ⟨m, host⟩).log.toList =
    Machine.stepLogs (m.setKeys (Host.keys host).1).frameSteps := by
  rw [← Machine.frame_log]
  cases hr : (m.setKeys (Host.keys host).1).frame.result with
  | ok _ => rw [Console.tick_of_ok hr]
  | error e => rw [Console.tick_of_error hr]

section Filter
variable {p : Event → Bool} (hloaded : ∀ size addr, p (.loaded size addr) = false)
include hloaded

/-- But for the record of a load, a call logs what its steps log. -/
theorem filter_log_call (c : Call H) (m : Machine R) :
    (c.perform m).log.toList.filter p = (Machine.stepLogs (c.steps m)).filter p := by
  cases c with
  | load rom =>
      show (m.load rom).log.toList.filter p = []
      rcases Nat.lt_or_ge Memory.programRoom rom.length with hlong | hfit
      · rw [m.load_of_lt hlong]
        rfl
      · rw [m.load_of_le hfit]
        exact List.filter_cons_of_neg (Bool.eq_false_iff.mp (hloaded _ _))
  | setKey _ _ | setKeys _ | takeFrame => rfl
  | step => exact congrArg (List.filter p) (Machine.stepLogs_singleton m).symm
  | frame => exact congrArg (List.filter p) m.frame_log
  | refresh keys => exact congrArg (List.filter p) (refresh_log keys)
  | tick host => exact congrArg (List.filter p) (tick_log m host)

theorem filter_logged (calls : List (Call H)) (m : Machine R) :
    (logged calls m).filter p = (Machine.stepLogs (stepsOf calls m)).filter p := by
  induction calls generalizing m with
  | nil => rfl
  | cons c calls ih =>
      rw [logged, stepsOf, Machine.stepLogs, List.flatMap_append, List.filter_append,
        List.filter_append, filter_log_call hloaded, ih]
      rfl

end Filter

end Logs

/-! ## Falling -/

section Falls
variable {R H : Type} [RandomSource R] [Host H]

theorem leadsTo_kept (s : Status) : Kept fun m : Machine R => s.LeadsTo m.status where
  setKeys hm _ := hm
  takeFrame hm := hm
  countDown hm _ := hm
  step hm := hm.trans (Machine.step_leadsTo _)

namespace Machine

/-- Of the steps of a batch one at most falls, and then the batch has fallen. -/
theorem falls_batch (n : Nat) (m : Machine R) :
    (begun n m).filterMap fall? =
      (m.status.fall? (Outcome.repeated step n (.done () m)).state.status).toList := by
  induction n generalizing m with
  | zero => exact congrArg Option.toList (Status.fall?_self _).symm
  | succ n ih =>
      rw [Outcome.repeated_done_succ]
      cases hr : m.step.result with
      | error e =>
          rw [Outcome.andThen_of_error _ hr, begun_of_error hr]
          rfl
      | ok _ =>
          have hstands : m.fall? = none := fall?_of_ok hr
          have hrest : m.step.state.status.LeadsTo
              (Outcome.repeated step n (.done () m.step.state)).state.status :=
            Outcome.repeated_preserves (P := fun s => m.step.state.status.LeadsTo s.status) step
              (fun s hs => hs.trans s.step_leadsTo) n (.inl rfl)
          rw [Outcome.andThen_of_ok _ hr, begun_of_ok hr, List.filterMap_cons_none hstands, ih,
            ← m.step_leadsTo.fall?_append hrest, ← fall?, hstands]
          rfl

theorem falls_frame (m : Machine R) :
    m.frameSteps.filterMap fall? = (m.status.fall? m.frame.state.status).toList := by
  unfold frameSteps
  cases hhalted : m.isHalted with
  | true =>
      obtain ⟨fault, hfault⟩ := isHalted_iff.mp hhalted
      rw [frame_of_halted hfault, Outcome.raise_state, Status.fall?_self]
      rfl
  | false =>
      rw [frame_of_not_halted hhalted]
      exact falls_batch _ m.countDown

theorem serve_status (keys : Keypad) (m : Machine R) :
    (m.serve keys).status = (m.setKeys keys).frame.state.status := by
  simp only [serve]
  cases (m.setKeys keys).frame.result <;> rfl

end Machine

theorem falls_call (c : Call H) (m : Machine R) :
    (c.steps m).filterMap Machine.fall? = (m.status.fall? (c.perform m).state.status).toList := by
  have hserve : ∀ keys, (m.setKeys keys).frameSteps.filterMap Machine.fall? =
      (m.status.fall? (m.serve keys).status).toList := by
    intro keys
    rw [m.serve_status keys]
    exact Machine.falls_frame _
  have hstill : ([] : List Fault) = (m.status.fall? m.status).toList :=
    congrArg Option.toList (Status.fall?_self _).symm
  cases c with
  | load rom =>
      rcases Nat.lt_or_ge Memory.programRoom rom.length with hlong | hfit
      · rw [perform_load_of_lt m hlong]
        exact hstill
      · rw [perform_load_of_le m hfit, Status.fall?_of_ne_halted (fun fault h => by cases h)]
        rfl
  | setKey _ _ | setKeys _ | takeFrame => exact hstill
  | step => rfl
  | frame => exact Machine.falls_frame m
  | refresh keys =>
      have hstatus : ((Call.refresh keys : Call H).perform m).state.status = (m.serve keys).status :=
        refresh_eq_serve (fun _ _ => rfl) keys m
      rw [hstatus]
      exact hserve keys
  | tick host => rw [perform_tick]; exact hserve _

/-- Without a load in between, calls fall as one. -/
theorem falls_calls {calls : List (Call H)} (hcalls : ∀ c ∈ calls, ¬c.Loads) (m : Machine R) :
    (stepsOf calls m).filterMap Machine.fall? =
      (m.status.fall? (after calls m).status).toList := by
  induction calls generalizing m with
  | nil => exact congrArg Option.toList (Status.fall?_self _).symm
  | cons c calls ih =>
      obtain ⟨hc, hrest⟩ := List.forall_mem_cons.mp hcalls
      have hfirst : m.status.LeadsTo (c.perform m).state.status :=
        (leadsTo_kept _).perform (.inl rfl) c fun h => absurd h hc
      have hlater := (leadsTo_kept (c.perform m).state.status).after hrest (.inl rfl)
      rw [stepsOf, List.filterMap_append, falls_call, ih hrest]
      exact hfirst.fall?_append hlater

theorem falls_request (r : Request H) (m : Machine R) :
    (stepsOf (r.calls m) m).filterMap Machine.fall? =
      (m.status.fall? (r.perform m).state.status).toList := by
  cases r with
  | call c =>
      show (c.steps m ++ []).filterMap Machine.fall? = _
      rw [List.append_nil]
      exact falls_call c m
  | run pace host =>
      rw [← after_calls]
      exact falls_calls (fun c hc => Console.not_loads_of_mem_ticks pace _ hc) m

/-- The faults that a machine falls to in these requests: one for each that finds it
running and leaves it halted. -/
def falls : List (Request H) → Machine R → List Fault
  | [], _ => []
  | r :: requests, m =>
      (m.status.fall? (r.perform m).state.status).toList ++ falls requests (r.perform m).state

theorem falls_requests (requests : List (Request H)) (m : Machine R) :
    (stepsOf (callsOf requests m) m).filterMap Machine.fall? = falls requests m := by
  induction requests generalizing m with
  | nil => rfl
  | cons r requests ih =>
      rw [callsOf, stepsOf_append, List.filterMap_append, falls_request, after_calls, ih]
      rfl

end Falls

/-! ## Trace and errors -/

namespace Machine

variable {R : Type} [RandomSource R]

omit [RandomSource R] in
theorem level_of_traced {m : Machine R} {e : Event} (h : m.traced? = some e) : e.level = .trace := by
  obtain ⟨-, he⟩ := Option.ite_none_right_eq_some.mp h
  cases he
  rfl

theorem trace_step {m : Machine R} (hm : m.InBounds) :
    m.step.log.toList.filter (fun e => e.level = .trace) = m.traced?.toList := by
  rw [step_log hm, List.filter_append]
  have hfall : (m.fall?.toList.map Event.halted).filter (fun e => e.level = .trace) = [] := by
    cases m.fall? <;> rfl
  rw [hfall, List.append_nil]
  cases htraced : m.traced? with
  | none => rfl
  | some e => simp [level_of_traced htraced]

theorem errors_step {m : Machine R} (hm : m.InBounds) :
    m.step.log.toList.filter (fun e => e.level = .error) = m.fall?.toList.map .halted := by
  rw [step_log hm, List.filter_append]
  have htrace : m.traced?.toList.filter (fun e => e.level = .error) = [] := by
    cases htraced : m.traced? with
    | none => rfl
    | some e => simp [level_of_traced htraced]
  rw [htrace, List.nil_append]
  cases m.fall? <;> rfl

theorem trace_stepLogs {steps : List (Machine R)} (hsteps : ∀ s ∈ steps, s.InBounds) :
    (stepLogs steps).filter (fun e => e.level = .trace) = steps.filterMap traced? := by
  induction steps with
  | nil => rfl
  | cons s steps ih =>
      obtain ⟨hs, hrest⟩ := List.forall_mem_cons.mp hsteps
      rw [stepLogs, List.flatMap_cons, List.filter_append, trace_step hs, ← stepLogs, ih hrest,
        List.filterMap_cons]
      cases s.traced? <;> rfl

theorem errors_stepLogs {steps : List (Machine R)} (hsteps : ∀ s ∈ steps, s.InBounds) :
    (stepLogs steps).filter (fun e => e.level = .error) =
      (steps.filterMap fall?).map .halted := by
  induction steps with
  | nil => rfl
  | cons s steps ih =>
      obtain ⟨hs, hrest⟩ := List.forall_mem_cons.mp hsteps
      rw [stepLogs, List.flatMap_cons, List.filter_append, errors_step hs, ← stepLogs, ih hrest,
        List.filterMap_cons]
      cases s.fall? <;> rfl

theorem stepLogs_of_not_running {steps : List (Machine R)}
    (hsteps : ∀ s ∈ steps, s.status ≠ .running) : stepLogs steps = [] := by
  rw [stepLogs, List.flatMap_eq_nil_iff]
  intro s hs
  rw [step_log_of_not_running (hsteps s hs)]

end Machine

section Runs
variable {R H : Type} [RandomSource R] [Host H]

theorem not_running_kept : Kept fun m : Machine R => m.status ≠ .running where
  setKeys hm _ := hm
  takeFrame hm := hm
  countDown hm _ := hm
  step := by
    intro m hm
    rcases m.step_leadsTo with hsame | ⟨hrun, -⟩
    · exact hsame ▸ hm
    · exact absurd hrun hm

/-- No step of a request begins running if the machine is not running when it comes. -/
theorem not_running_of_mem_stepsOf {m : Machine R} (hm : m.status ≠ .running) (r : Request H) :
    ∀ s ∈ stepsOf (r.calls m) m, s.status ≠ .running := by
  cases r with
  | call c =>
      show ∀ s ∈ c.steps m ++ [], s.status ≠ .running
      rw [List.append_nil]
      exact mem_steps not_running_kept hm c
  | run pace host =>
      refine mem_stepsOf_of_not_loads not_running_kept ?_ hm
      exact fun c hc => Console.not_loads_of_mem_ticks pace _ hc

theorem level_of_not_running {m : Machine R} (hm : m.status ≠ .running) (r : Request H) :
    ∀ e ∈ (r.perform m).log, e.level ≠ .trace ∧ e.level ≠ .error := by
  let p : Event → Bool := fun e => e.level = .trace ∨ e.level = .error
  have hloop : ∀ e : Event, e.OfLoop → p e = false := by
    intro e he
    simp [p, he.level_ne]
  have hnone : (r.perform m).log.toList.filter p = [] := by
    rw [filter_log_perform hloop, filter_logged (fun _ _ => rfl),
      Machine.stepLogs_of_not_running (not_running_of_mem_stepsOf hm r)]
    rfl
  intro e he
  have hp := List.filter_eq_nil_iff.mp hnone e (Array.mem_toList_iff.mpr he)
  simpa [p] using hp

theorem falls_append (requests requests' : List (Request H)) (m : Machine R) :
    falls (requests ++ requests') m =
      falls requests m ++ falls requests' (afterRequests requests m) := by
  induction requests generalizing m with
  | nil => rfl
  | cons r requests ih =>
      rw [List.cons_append, falls, falls, ih, List.append_assoc]
      rfl

/-- Only a load lets a machine fall again. -/
theorem falls_of_not_running {requests : List (Request H)} {m : Machine R}
    (hrequests : ∀ r ∈ requests, ¬r.Loads) (hm : m.status ≠ .running) : falls requests m = [] := by
  induction requests generalizing m with
  | nil => rfl
  | cons r requests ih =>
      obtain ⟨hr, hrest⟩ := List.forall_mem_cons.mp hrequests
      have hnext := not_running_kept.request hm r fun h => absurd h hr
      rw [falls, Status.fall?_of_ne_running hm, ih hrest hnext]
      rfl

theorem stepsOf_callsOf_append (requests requests' : List (Request H)) (m : Machine R) :
    stepsOf (callsOf (requests ++ requests') m) m =
      stepsOf (callsOf requests m) m ++
        stepsOf (callsOf requests' (afterRequests requests m)) (afterRequests requests m) := by
  induction requests generalizing m with
  | nil => rfl
  | cons r requests ih =>
      rw [List.cons_append, callsOf, callsOf, stepsOf_append, stepsOf_append, after_calls, ih,
        List.append_assoc]
      rfl

/-- Only a load lets a machine fetch again. -/
theorem traced_of_not_running {requests : List (Request H)} {m : Machine R}
    (hrequests : ∀ r ∈ requests, ¬r.Loads) (hm : m.status ≠ .running) :
    (stepsOf (callsOf requests m) m).filterMap Machine.traced? = [] := by
  induction requests generalizing m with
  | nil => rfl
  | cons r requests ih =>
      obtain ⟨hr, hrest⟩ := List.forall_mem_cons.mp hrequests
      have hnext := not_running_kept.request hm r fun h => absurd h hr
      rw [callsOf, stepsOf_append, after_calls, List.filterMap_append, ih hrest hnext,
        List.append_nil, List.filterMap_eq_nil_iff]
      intro s hs
      exact Machine.traced?_of_not_running (not_running_of_mem_stepsOf hm r s hs)

/-- Whatever is asked of a machine, its trace has one record for each step that began with
a fetch while it was running, and the errors are the faults it fell to, each once.  The
steps are those that executed what was executed.  While a machine is not running, no
request adds to either. -/
theorem log_tells (settings : Settings) (source : R) (requests : List (Request H)) :
    let start := Machine.idle settings source
    let final := afterRequests requests start
    let log := recorded requests start
    let steps := stepsOf (callsOf requests start) start
    log.filter (fun e => e.level = .trace) = steps.filterMap Machine.traced? ∧
    (∀ s ∈ steps, ∀ e, s.traced? = some e ↔
      s.status = .running ∧ ∃ word, s.fetch.result = .ok word ∧ e = .fetched s.pc word) ∧
    log.filter (fun e => e.level = .error) = (falls requests start).map .halted ∧
    steps.flatMap Machine.executes = history (callsOf requests start) start ∧
    (final.status ≠ .running → ∀ r : Request H, ∀ e ∈ (r.perform final).log,
      e.level ≠ .trace ∧ e.level ≠ .error) := by
  intro start final log steps
  have hsteps : ∀ s ∈ steps, s.InBounds :=
    mem_stepsOf inBounds_kept (fun c _ _ hm => hm.perform c) (inBounds_idle settings source)
  refine ⟨?_, fun s hs _ => (hsteps s hs).traced?_eq_some_iff, ?_, executes_stepsOf _ _,
    fun hstill r => level_of_not_running hstill r⟩
  · have hloop : ∀ e : Event, e.OfLoop → decide (e.level = .trace) = false :=
      fun e he => decide_eq_false he.level_ne.1
    rw [filter_recorded hloop, filter_logged (fun _ _ => rfl), Machine.trace_stepLogs hsteps]
  · have hloop : ∀ e : Event, e.OfLoop → decide (e.level = .error) = false :=
      fun e he => decide_eq_false he.level_ne.2
    rw [filter_recorded hloop, filter_logged (fun _ _ => rfl), Machine.errors_stepLogs hsteps,
      falls_requests]

section LoadStep
variable {m : Machine R} {rom : List UInt8} (hrom : rom.length ≤ Memory.programRoom)
include hrom

theorem falls_load_step (hm : m.status ≠ .running) {fault : Fault}
    (hfall : (m.loaded rom).step.state.status = .halted fault) :
    falls ([.call (.load rom), .call .step] : List (Request H)) m = [fault] := by
  have hload : ((Request.call (.load rom) : Request H).perform m).state = m.loaded rom :=
    perform_load_of_le (H := H) m hrom
  rw [falls, hload, Status.fall?_of_ne_running hm]
  show ((m.loaded rom).status.fall? (m.loaded rom).step.state.status).toList ++ [] = _
  rw [hfall]
  rfl

theorem afterRequests_load_step :
    afterRequests ([.call (.load rom), .call .step] : List (Request H)) m =
      (m.loaded rom).step.state :=
  congrArg (fun s => s.step.state) (perform_load_of_le (H := H) m hrom)

theorem stepsOf_load_step :
    stepsOf (callsOf ([.call (.load rom), .call .step] : List (Request H)) m) m =
      [m.loaded rom] := by
  have hload : ((Request.call (.load rom) : Request H).perform m).state = m.loaded rom :=
    perform_load_of_le (H := H) m hrom
  rw [callsOf, stepsOf_append, after_calls, hload]
  rfl

end LoadStep

end Runs

/-- 00EE in a fresh program is a fault.  It is fetched and fails once, until it is fetched
again in a program that is loaded over it; whatever is asked in between or afterwards logs
neither. -/
theorem log_tells_of_ret :
    let start := Machine.idle {} (⟨0, 1⟩ : Counter)
    let rom : List UInt8 := [0x00, 0xEE]
    let fresh : List (Request Terminal) := [.call (.load rom), .call .step]
    let more : List (Request Terminal) := [.call .frame, .run .throttled (.ofFrames 3 .blank)]
    let fault : Fault := ⟨0x200, .stackUnderflow⟩
    let log := recorded (fresh ++ (more ++ fresh)) start
    log.filter (fun e => e.level = .trace) = [.fetched 0x200 0x00EE, .fetched 0x200 0x00EE] ∧
    log.filter (fun e => e.level = .error) = [.halted fault, .halted fault] ∧
    ∀ r : Request Terminal, ∀ e ∈ (r.perform (afterRequests (fresh ++ (more ++ fresh)) start)).log,
      e.level ≠ .trace ∧ e.level ≠ .error := by
  intro start rom fresh more fault log
  have hrom : rom.length ≤ Memory.programRoom := by decide
  have hpc : ∀ m : Machine Counter, (m.loaded rom).pc + 2 ≤ Memory.size :=
    fun _ => show 0x200 + 2 ≤ 0x1000 by decide
  have hword : ∀ m : Machine Counter, (m.loaded rom).nextWord = 0x00EE := by
    intro m
    rw [Machine.nextWord_loaded _ rfl rfl]
    rfl
  have htraced : ∀ m : Machine Counter, (m.loaded rom).traced? = some (.fetched 0x200 0x00EE) := by
    intro m
    rw [Machine.traced?_of_le rfl (hpc m), hword m]
    rfl
  have hret : ∀ m : Machine Counter, (m.loaded rom).step.state.status = .halted fault := by
    intro m
    have hspells : (m.loaded rom).nextWord.Spells .ret := by
      rw [hword m]
      rfl
    rw [Machine.step_of_spells (inBounds_loaded rom m) rfl (hpc m) hspells]
    rfl
  have hidle : start.status ≠ .running := by intro h; cases h
  obtain ⟨htrace, -, herrors, -, hquiet⟩ :=
    log_tells {} (⟨0, 1⟩ : Counter) (fresh ++ (more ++ fresh))
  have hmore : ∀ r ∈ more, ¬r.Loads := by
    simp only [more, List.forall_mem_cons]
    exact ⟨id, id, fun _ h => absurd h List.not_mem_nil⟩
  have hfallen : (afterRequests fresh start).status ≠ .running := by
    rw [afterRequests_load_step hrom, hret]
    intro h
    cases h
  have hstill := not_running_kept.afterRequests hmore hfallen
  have hfinal : (afterRequests (fresh ++ (more ++ fresh)) start).status ≠ .running := by
    rw [afterRequests, List.foldl_append, List.foldl_append, ← afterRequests, ← afterRequests,
      ← afterRequests, afterRequests_load_step hrom, hret]
    intro h
    cases h
  refine ⟨?_, ?_, hquiet hfinal⟩
  · rw [htrace, stepsOf_callsOf_append, stepsOf_callsOf_append, stepsOf_load_step hrom,
      stepsOf_load_step hrom, List.filterMap_append, List.filterMap_append,
      traced_of_not_running hmore hfallen, List.filterMap_cons_some (htraced _),
      List.filterMap_cons_some (htraced _)]
    rfl
  · rw [herrors, falls_append, falls_append, falls_load_step hrom hidle (hret _),
      falls_of_not_running hmore hfallen, falls_load_step hrom hstill (hret _)]
    rfl

end Chip8
