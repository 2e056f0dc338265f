/-
# `Chip8.Proofs.Calls` — what can be asked of a machine

A machine is used through eight calls, in any order and any number:

    load rom           put a program in and start over
    setKey, setKeys    change one key or all of them
    takeFrame          ask whether the screen was drawn on
    step, frame        one instruction, a sixtieth of a second
    refresh keys       the frame of a window
    tick host          the frame of a console

`perform` is the operation behind a call, and `Reachable` are the machines
that calls lead to from an idle one.  All that a call does to a machine is
made of five things: to load, to set keys, to take the frame, to count down
and to step.  So a property that the last four keep (`Kept`) is kept by every
call but a load, which starts over (`Kept.perform`), and holds wherever calls
lead if it holds at the start and after a load (`Kept.reachable`).
-/
import Chip8.FrameLoop
import Chip8.Proofs.Step
import Chip8.Window

namespace Chip8

/-! ## Other words for an outcome -/

/-- The same outcome, told in other types. -/
def Outcome.translate {ε ε' σ σ' α α' : Type} (onError : ε → ε') (onState : σ → σ')
    (onAnswer : α → α') (o : Outcome ε σ α) : Outcome ε' σ' α' where
  result := match o.result with
    | .ok a => .ok (onAnswer a)
    | .error (.raised e) => .error (.raised (onError e))
    | .error .overflow => .error .overflow
  state := onState o.state
  log := o.log

theorem Outcome.translate_ne_overflow {ε ε' σ σ' α α' : Type} {onError : ε → ε'}
    {onState : σ → σ'} {onAnswer : α → α'} {o : Outcome ε σ α}
    (h : o.result ≠ .error .overflow) :
    (o.translate onError onState onAnswer).result ≠ .error .overflow := by
  unfold translate
  cases hr : o.result with
  | ok a => simp
  | error e =>
      cases e with
      | raised e => simp
      | overflow => exact absurd hr h

/-! ## Calls -/

/-- What a machine can be asked to do. -/
inductive Call (H : Type) where
  | load (rom : List UInt8)
  | setKey (key : Nat) (held : Bool)
  | setKeys (keys : Keypad)
  | takeFrame
  | step
  | frame
  | refresh (keys : Keypad)
  | tick (host : H)

/-- What a call answers that is carried out. -/
inductive Reply where
  | nothing
  | drawn (changed : Bool)
  | shown (screen : Option Screen)
  deriving DecidableEq

/-- What a call reports that is not. -/
inductive Refusal where
  | notLoaded (cause : Cause)
  | stopped (fault : Fault)
  deriving DecidableEq, Repr

namespace Machine

variable {R : Type}

/-- The machine at the start of a program. -/
def loaded (rom : List UInt8) (m : Machine R) : Machine R :=
  { m with
    memory := Memory.blank.patch Memory.programStart rom
    pc := Memory.programStart
    stack := []
    v := .replicate 16 0
    index := 0
    delay := 0
    sound := 0
    screen := .blank
    frameReady := true
    status := .running }

theorem load_of_le (m : Machine R) {rom : List UInt8} (h : rom.length ≤ Memory.programRoom) :
    m.load rom = ⟨.ok (), m.loaded rom, #[.loaded rom.length Memory.programStart]⟩ := by
  simp only [load, Memory.ofProgram, if_neg (Nat.not_lt.mpr h), loaded]

theorem load_of_lt (m : Machine R) {rom : List UInt8} (h : Memory.programRoom < rom.length) :
    m.load rom = .raise (.romTooLarge rom.length Memory.programRoom) m := by
  simp only [load, Memory.ofProgram, if_pos h]

theorem load_result_iff (m : Machine R) (rom : List UInt8) :
    (m.load rom).result = .ok () ↔ rom.length ≤ Memory.programRoom := by
  rcases Nat.lt_or_ge Memory.programRoom rom.length with hlong | hfit
  · simp [m.load_of_lt hlong, Nat.not_le.mpr hlong]
  · simp [m.load_of_le hfit, hfit]

theorem byteAt_loaded (m : Machine R) {rom : List UInt8} {k : Nat} {b : UInt8}
    (hk : Memory.programStart + k < Memory.size) (hb : rom[k]? = some b) :
    (m.loaded rom).memory.byteAt (Memory.programStart + k) = b := by
  rw [show (m.loaded rom).memory = Memory.blank.patch Memory.programStart rom from rfl,
    Memory.byteAt_patch _ _ _ hk, if_pos (Nat.le_add_right _ k), Nat.add_sub_cancel_left, hb]
  rfl

theorem pc_loaded (m : Machine R) (rom : List UInt8) : (m.loaded rom).pc = Memory.programStart := rfl

theorem wordAt_loaded (m : Machine R) {rom : List UInt8} {k : Nat} {b c : UInt8}
    (hk : Memory.programStart + (k + 1) < Memory.size) (hb : rom[k]? = some b)
    (hc : rom[k + 1]? = some c) :
    (m.loaded rom).memory.wordAt (Memory.programStart + k) = .ofBytes b c := by
  rw [Memory.wordAt, m.byteAt_loaded (Nat.lt_of_succ_lt hk) hb]
  exact congrArg _ (m.byteAt_loaded hk hc)

theorem nextWord_loaded (m : Machine R) {rom : List UInt8} {b c : UInt8} (hb : rom[0]? = some b)
    (hc : rom[1]? = some c) : (m.loaded rom).nextWord = .ofBytes b c :=
  m.wordAt_loaded (k := 0) (by decide) hb hc

theorem spells_loaded (m : Machine R) {rom : List UInt8} {k : Nat} {b c : UInt8}
    {i : Instruction} (hk : Memory.programStart + (k + 1) < Memory.size)
    (hb : rom[k]? = some b) (hc : rom[k + 1]? = some c) (hword : (Word.ofBytes b c).Spells i) :
    ((m.loaded rom).memory.wordAt (Memory.programStart + k)).Spells i :=
  m.wordAt_loaded hk hb hc ▸ hword

variable [RandomSource R]

/-- The machine after a frame with these keys, the frame taken if it was
completed. -/
def serve (keys : Keypad) (m : Machine R) : Machine R :=
  let served := (m.setKeys keys).frame
  match served.result with
  | .ok () => served.state.takeFrame.2
  | .error _ => served.state

end Machine

namespace Call

variable {R H : Type}

def Loads : Call H → Prop
  | .load rom => rom.length ≤ Memory.programRoom
  | _ => False

instance : (c : Call H) → Decidable c.Loads
  | .load rom => inferInstanceAs (Decidable (rom.length ≤ Memory.programRoom))
  | .setKey _ _ | .setKeys _ | .takeFrame | .step | .frame | .refresh _ | .tick _ => isFalse id

variable [RandomSource R] [Host H]

/-- The operation that a call stands for.  Of a console's tick only the machine is
looked at: whoever called has the host. -/
def perform : Call H → Machine R → Outcome Refusal (Machine R) Reply
  | .load rom, m => (m.load rom).translate .notLoaded id fun () => .nothing
  | .setKey key held, m => .done .nothing (m.setKey key held)
  | .setKeys keys, m => .done .nothing (m.setKeys keys)
  | .takeFrame, m => .done (.drawn m.takeFrame.1) m.takeFrame.2
  | .step, m => m.step.translate .stopped id fun () => .nothing
  | .frame, m => m.frame.translate .stopped id fun () => .nothing
  | .refresh keys, m => (Window.refresh keys m).translate .stopped id .shown
  | .tick host, m => (Console.tick ⟨m, host⟩).translate .stopped Console.machine fun () => .nothing

end Call

def after {R H : Type} [RandomSource R] [Host H] (calls : List (Call H)) (m : Machine R) :
    Machine R :=
  calls.foldl (fun m c => (c.perform m).state) m

inductive Reachable {R : Type} (H : Type) [RandomSource R] [Host H] : Machine R → Prop where
  | idle (settings : Settings) (source : R) : Reachable H (.idle settings source)
  | call (c : Call H) {m : Machine R} (hm : Reachable H m) : Reachable H (c.perform m).state

section Runs
variable {R H : Type} [RandomSource R] [Host H]

@[simp] theorem after_nil (m : Machine R) : after ([] : List (Call H)) m = m := rfl

@[simp] theorem after_cons (c : Call H) (calls : List (Call H)) (m : Machine R) :
    after (c :: calls) m = after calls (c.perform m).state := rfl

theorem after_append (calls calls' : List (Call H)) (m : Machine R) :
    after (calls ++ calls') m = after calls' (after calls m) :=
  List.foldl_append

theorem Reachable.after {m : Machine R} (hm : Reachable H m) (calls : List (Call H)) :
    Reachable H (after calls m) := by
  induction calls generalizing m with
  | nil => exact hm
  | cons c calls ih => exact ih (hm.call c)

end Runs

/-! ## What a call does to the machine -/

namespace Machine

variable {R : Type}

theorem isHalted_iff {m : Machine R} : m.isHalted = true ↔ ∃ fault, m.status = .halted fault := by
  unfold isHalted
  cases m.status <;> simp

theorem isHalted_of_running {m : Machine R} (h : m.status = .running) : m.isHalted = false := by
  simp [isHalted, h]

@[simp] theorem isHalted_setKeys (m : Machine R) (keys : Keypad) :
    (m.setKeys keys).isHalted = m.isHalted := rfl

variable [RandomSource R]

theorem frame_of_halted {m : Machine R} {fault : Fault} (h : m.status = .halted fault) :
    m.frame = .raise fault m := by
  rw [frame, h]

theorem frame_of_not_halted {m : Machine R} (h : m.isHalted = false) :
    m.frame = .repeated step m.settings.perFrame (.done () m.countDown) := by
  unfold isHalted at h
  unfold frame
  cases hs : m.status with
  | halted fault => simp [hs] at h
  | idle | running => rfl

theorem frame_of_one {m : Machine R} (hm : m.isHalted = false) (hone : m.settings.perFrame = 1) :
    m.frame = m.countDown.step := by
  rw [frame_of_not_halted hm, hone]
  exact Outcome.repeated_one step m.countDown

theorem frame_raised_iff (m : Machine R) (fault : Fault) :
    m.frame.result = .error (.raised fault) ↔ m.frame.state.status = .halted fault := by
  cases hhalted : m.isHalted with
  | true =>
      obtain ⟨fault', hfault⟩ := isHalted_iff.mp hhalted
      simp [frame_of_halted hfault, hfault]
  | false =>
      have hstart : ∀ fault, m.countDown.status ≠ .halted fault :=
        fun fault h => Bool.eq_false_iff.mp hhalted (isHalted_iff.mpr ⟨fault, h⟩)
      rw [frame_of_not_halted hhalted]
      refine Outcome.repeated_ends
        (P := fun result s => ∀ f, result = .error (.raised f) ↔ s.status = .halted f) step
        step_raised_iff _ ?_ fault
      intro f
      simp [hstart f]

theorem refresh_state (keys : Keypad) (m : Machine R) :
    (Window.refresh keys m).state = if m.isHalted then m else m.serve keys := by
  simp only [Window.refresh, serve]
  cases m.isHalted with
  | true => rfl
  | false =>
      cases (m.setKeys keys).frame.result with
      | ok _ => rfl
      | error e => cases e <;> rfl

theorem serve_of_halted {m : Machine R} {fault : Fault} (h : m.status = .halted fault)
    (keys : Keypad) : m.serve keys = m.setKeys keys := by
  have hframe : (m.setKeys keys).frame = .raise fault (m.setKeys keys) := frame_of_halted h
  simp only [serve, hframe]
  rfl

theorem tick_machine {H : Type} [Host H] (m : Machine R) (host : H) :
    (Console.tick ⟨m, host⟩).state.machine = m.serve (Host.keys host).1 := by
  simp only [Console.tick, serve]
  cases (m.setKeys (Host.keys host).1).frame.result <;> rfl

end Machine

section Perform
variable {R H : Type} [RandomSource R] [Host H]

theorem perform_load_of_le (m : Machine R) {rom : List UInt8}
    (h : rom.length ≤ Memory.programRoom) :
    ((Call.load rom : Call H).perform m).state = m.loaded rom := by
  simp only [Call.perform, m.load_of_le h]
  rfl

theorem perform_load_of_lt (m : Machine R) {rom : List UInt8}
    (h : Memory.programRoom < rom.length) :
    ((Call.load rom : Call H).perform m).state = m := by
  simp only [Call.perform, m.load_of_lt h]
  rfl

theorem Reachable.loaded {m : Machine R} (hm : Reachable H m) {rom : List UInt8}
    (h : rom.length ≤ Memory.programRoom) : Reachable H (m.loaded rom) :=
  perform_load_of_le (H := H) m h ▸ hm.call (.load rom)

theorem Reachable.step {m : Machine R} (hm : Reachable H m) : Reachable H m.step.state :=
  hm.call .step

theorem perform_refresh (keys : Keypad) (m : Machine R) :
    ((Call.refresh keys : Call H).perform m).state =
      if m.isHalted then m else m.serve keys :=
  m.refresh_state keys

/-- A halted machine does not see the keys of a refresh; in all but the keys it makes no
difference. -/
theorem refresh_eq_serve {α : Type} {view : Machine R → α}
    (hview : ∀ m keys, view (m.setKeys keys) = view m) (keys : Keypad) (m : Machine R) :
    view ((Call.refresh keys : Call H).perform m).state = view (m.serve keys) := by
  rw [perform_refresh]
  cases hhalted : m.isHalted with
  | false => rfl
  | true =>
      obtain ⟨fault, hfault⟩ := Machine.isHalted_iff.mp hhalted
      rw [Machine.serve_of_halted hfault, hview]
      rfl

theorem perform_tick (host : H) (m : Machine R) :
    ((Call.tick host).perform m).state = m.serve (Host.keys host).1 :=
  m.tick_machine host

end Perform

/-! ## Properties that are kept -/

/-- What everything but a load keeps. -/
structure Kept {R : Type} [RandomSource R] (P : Machine R → Prop) : Prop where
  setKeys : ∀ {m}, P m → ∀ keys, P (m.setKeys keys)
  takeFrame : ∀ {m}, P m → P m.takeFrame.2
  countDown : ∀ {m}, P m → m.isHalted = false → P m.countDown
  step : ∀ {m}, P m → P m.step.state

namespace Kept

variable {R H : Type} [RandomSource R] [Host H] {P : Machine R → Prop}

theorem frame (hP : Kept P) {m : Machine R} (hm : P m) : P m.frame.state := by
  cases hhalted : m.isHalted with
  | true =>
      obtain ⟨fault, hfault⟩ := Machine.isHalted_iff.mp hhalted
      rw [Machine.frame_of_halted hfault]
      exact hm
  | false =>
      rw [Machine.frame_of_not_halted hhalted]
      exact Outcome.repeated_preserves _ (fun _ => hP.step) _ (hP.countDown hm hhalted)

theorem serve (hP : Kept P) {m : Machine R} (hm : P m) (keys : Keypad) : P (m.serve keys) := by
  have hframe := hP.frame (hP.setKeys hm keys)
  simp only [Machine.serve]
  cases (m.setKeys keys).frame.result with
  | ok _ => exact hP.takeFrame hframe
  | error _ => exact hframe

/-- A call keeps what its parts keep, unless it starts over. -/
theorem perform (hP : Kept P) {m : Machine R} (hm : P m) (c : Call H)
    (hload : c.Loads → P (c.perform m).state) : P (c.perform m).state := by
  cases c with
  | load rom =>
      rcases Nat.lt_or_ge Memory.programRoom rom.length with hlong | hfit
      · rw [perform_load_of_lt m hlong]
        exact hm
      · exact hload hfit
  | setKey key held => exact hP.setKeys hm _
  | setKeys keys => exact hP.setKeys hm keys
  | takeFrame => exact hP.takeFrame hm
  | step => exact hP.step hm
  | frame => exact hP.frame hm
  | refresh keys =>
      rw [perform_refresh]
      split
      · exact hm
      · exact hP.serve hm keys
  | tick host => rw [perform_tick]; exact hP.serve hm _

theorem after (hP : Kept P) {calls : List (Call H)} {m : Machine R}
    (hcalls : ∀ c ∈ calls, ¬c.Loads) (hm : P m) : P (after calls m) := by
  induction calls generalizing m with
  | nil => exact hm
  | cons c calls ih =>
      obtain ⟨hc, hrest⟩ := List.forall_mem_cons.mp hcalls
      exact ih hrest (hP.perform hm c fun h => absurd h hc)

theorem perform_of_loaded (hP : Kept P)
    (hloaded : ∀ rom (m : Machine R), rom.length ≤ Memory.programRoom → P (m.loaded rom))
    {m : Machine R} (hm : P m) (c : Call H) : P (c.perform m).state := by
  refine hP.perform hm c ?_
  intro h
  cases c with
  | load rom => rw [perform_load_of_le m h]; exact hloaded rom m h
  | _ => cases h

/-- What holds of idle machines and at the start of every program holds wherever
calls lead. -/
theorem reachable (hP : Kept P) (hidle : ∀ settings source, P (.idle settings source))
    (hloaded : ∀ rom (m : Machine R), rom.length ≤ Memory.programRoom → P (m.loaded rom))
    {m : Machine R} (hm : Reachable H m) : P m := by
  induction hm with
  | idle settings source => exact hidle settings source
  | call c _ ih => exact hP.perform_of_loaded hloaded ih c

end Kept

/-! ## Bounds -/

section Bounds
variable {R H : Type}

theorem inBounds_idle (settings : Settings) (source : R) :
    (Machine.idle settings source).InBounds where
  pc_le := show Memory.programStart ≤ 0x10FE by decide
  stack_length_le := Nat.zero_le _
  stack_mem := fun _ h => absurd h List.not_mem_nil
  index_lt := show 0 < 0x10000 by decide

theorem inBounds_loaded (rom : List UInt8) (m : Machine R) : (m.loaded rom).InBounds :=
  (inBounds_idle m.settings m.source).of_eq rfl rfl rfl

variable [RandomSource R] [Host H]

theorem inBounds_kept : Kept (Machine.InBounds (R := R)) where
  setKeys hm _ := hm.of_eq rfl rfl rfl
  takeFrame hm := hm.of_eq rfl rfl rfl
  countDown hm _ := hm.of_eq rfl rfl rfl
  step hm := hm.step

theorem Machine.InBounds.perform {m : Machine R} (hm : m.InBounds) (c : Call H) :
    (c.perform m).state.InBounds :=
  inBounds_kept.perform_of_loaded (fun rom m _ => inBounds_loaded rom m) hm c

theorem Reachable.inBounds {m : Machine R} (hm : Reachable H m) : m.InBounds :=
  inBounds_kept.reachable inBounds_idle (fun rom m _ => inBounds_loaded rom m) hm

namespace Machine.InBounds

variable {m : Machine R}

theorem frame_ne_overflow (hm : m.InBounds) : m.frame.result ≠ .error .overflow := by
  cases hhalted : m.isHalted with
  | true =>
      obtain ⟨fault, hfault⟩ := isHalted_iff.mp hhalted
      simp [frame_of_halted hfault]
  | false =>
      rw [frame_of_not_halted hhalted]
      have hkeep : ∀ s : Machine R, s.InBounds → s.step.state.InBounds := fun _ hs => hs.step
      have hstep : ∀ s : Machine R, s.InBounds → s.step.result ≠ .error .overflow :=
        fun _ hs => hs.step_ne_overflow
      have hdown := inBounds_kept.countDown hm hhalted
      exact Outcome.repeated_result_ne Machine.step hkeep hstep _ hdown

theorem refresh_ne_overflow (hm : m.InBounds) (keys : Keypad) :
    (Window.refresh keys m).result ≠ .error .overflow := by
  have hframe := (inBounds_kept.setKeys hm keys).frame_ne_overflow
  simp only [Window.refresh]
  cases m.isHalted with
  | true => simp
  | false =>
      cases hr : (m.setKeys keys).frame.result with
      | ok _ => simp
      | error e =>
          cases e with
          | raised _ => simp
          | overflow => exact absurd hr hframe

theorem tick_ne_overflow (hm : m.InBounds) (host : H) :
    (Console.tick ⟨m, host⟩).result ≠ .error .overflow := by
  have hframe := (inBounds_kept.setKeys hm (Host.keys host).1).frame_ne_overflow
  simp only [Console.tick]
  cases hr : (m.setKeys (Host.keys host).1).frame.result with
  | ok _ => simp
  | error e => exact fun h => hframe (hr.trans h)

theorem perform_ne_overflow (hm : m.InBounds) (c : Call H) :
    (c.perform m).result ≠ .error .overflow := by
  cases c with
  | load rom =>
      refine Outcome.translate_ne_overflow ?_
      rcases Nat.lt_or_ge Memory.programRoom rom.length with hlong | hfit
      · simp [m.load_of_lt hlong]
      · simp [m.load_of_le hfit]
  | setKey _ _ | setKeys _ | takeFrame => simp [Call.perform]
  | step => exact Outcome.translate_ne_overflow hm.step_ne_overflow
  | frame => exact Outcome.translate_ne_overflow hm.frame_ne_overflow
  | refresh keys => exact Outcome.translate_ne_overflow (hm.refresh_ne_overflow keys)
  | tick host => exact Outcome.translate_ne_overflow (hm.tick_ne_overflow host)

end Machine.InBounds

end Bounds

end Chip8
