/-
# `Chip8.Proofs.CallSteps` — the steps that calls take

To execute, to log and to fail are things that single steps do.  Each call comes to a
list of steps, told by the machines that they begin with (`Call.steps`):

    step               one
    frame              those of its batch, up to the first that fails
    refresh, tick      those of the frame with its keys
    all others         none

What calls keep holds whenever a step begins (`mem_stepsOf`), and what the steps execute
is all that is executed (`executes_stepsOf`).
-/
import Chip8.Proofs.History

namespace Chip8

/-! ## The steps of a frame -/

namespace Machine

variable {R : Type} [RandomSource R]

/-- The machines that up to `n` steps begin with; after a fault there are none. -/
def begun : Nat → Machine R → List (Machine R)
  | 0, _ => []
  | n + 1, m => m :: match m.step.result with
      | .ok () => begun n m.step.state
      | .error _ => []

/-- The machines that the steps of a frame begin with. -/
def frameSteps (m : Machine R) : List (Machine R) :=
  if m.isHalted then [] else begun m.settings.perFrame m.countDown

theorem begun_of_ok {m : Machine R} (h : m.step.result = .ok ()) (n : Nat) :
    begun (n + 1) m = m :: begun n m.step.state := by
  rw [begun, h]

theorem begun_of_error {m : Machine R} {e : Stop Fault} (h : m.step.result = .error e) (n : Nat) :
    begun (n + 1) m = [m] := by
  rw [begun, h]

theorem mem_begun {P : Machine R → Prop} (hP : Kept P) (n : Nat) {m : Machine R} (hm : P m) :
    ∀ s ∈ begun n m, P s := by
  induction n generalizing m with
  | zero => exact fun s hs => absurd hs List.not_mem_nil
  | succ n ih =>
      cases hr : m.step.result with
      | error e =>
          rw [begun_of_error hr, List.forall_mem_singleton]
          exact hm
      | ok _ =>
          rw [begun_of_ok hr, List.forall_mem_cons]
          exact ⟨hm, ih (hP.step hm)⟩

theorem mem_frameSteps {P : Machine R → Prop} (hP : Kept P) {m : Machine R} (hm : P m) :
    ∀ s ∈ m.frameSteps, P s := by
  unfold frameSteps
  cases hhalted : m.isHalted with
  | true => exact fun s hs => absurd hs List.not_mem_nil
  | false => exact mem_begun hP _ (hP.countDown hm hhalted)

end Machine

/-! ## The steps of a call -/

section Steps
variable {R H : Type} [RandomSource R] [Host H]

def Call.steps : Call H → Machine R → List (Machine R)
  | .step, m => [m]
  | .frame, m => m.frameSteps
  | .refresh keys, m => (m.setKeys keys).frameSteps
  | .tick host, m => (m.setKeys (Host.keys host).1).frameSteps
  | _, _ => []

/-- The machines that the steps of some calls begin with, in order. -/
def stepsOf : List (Call H) → Machine R → List (Machine R)
  | [], _ => []
  | c :: calls, m => c.steps m ++ stepsOf calls (c.perform m).state

theorem stepsOf_append (calls calls' : List (Call H)) (m : Machine R) :
    stepsOf (calls ++ calls') m = stepsOf calls m ++ stepsOf calls' (after calls m) := by
  induction calls generalizing m with
  | nil => rfl
  | cons c calls ih =>
      rw [List.cons_append, stepsOf, stepsOf, ih, List.append_assoc]
      rfl

theorem mem_steps {P : Machine R → Prop} (hP : Kept P) {m : Machine R} (hm : P m) (c : Call H) :
    ∀ s ∈ c.steps m, P s := by
  cases c with
  | load _ | setKey _ _ | setKeys _ | takeFrame => exact fun s hs => absurd hs List.not_mem_nil
  | step => exact List.forall_mem_singleton.mpr hm
  | frame => exact Machine.mem_frameSteps hP hm
  | refresh keys => exact Machine.mem_frameSteps hP (hP.setKeys hm keys)
  | tick host => exact Machine.mem_frameSteps hP (hP.setKeys hm _)

theorem mem_stepsOf {P : Machine R → Prop} (hP : Kept P) {calls : List (Call H)} {m : Machine R}
    (hcalls : ∀ c ∈ calls, ∀ m : Machine R, P m → P (c.perform m).state) (hm : P m) :
    ∀ s ∈ stepsOf calls m, P s := by
  induction calls generalizing m with
  | nil => exact fun s hs => absurd hs List.not_mem_nil
  | cons c calls ih =>
      obtain ⟨hc, hrest⟩ := List.forall_mem_cons.mp hcalls
      rw [stepsOf, List.forall_mem_append]
      exact ⟨mem_steps hP hm c, ih hrest (hc m hm)⟩

theorem mem_stepsOf_of_not_loads {P : Machine R → Prop} (hP : Kept P) {calls : List (Call H)}
    {m : Machine R} (hcalls : ∀ c ∈ calls, ¬c.Loads) (hm : P m) : ∀ s ∈ stepsOf calls m, P s :=
  mem_stepsOf hP (fun c hc _ hm => hP.perform hm c fun h => absurd h (hcalls c hc)) hm

end Steps

/-! ## What the steps execute -/

section Executions
variable {R H : Type} [RandomSource R] [Host H]

theorem Machine.executes_begun (n : Nat) (m : Machine R) :
    (begun n m).flatMap executes = batch n m := by
  induction n generalizing m with
  | zero => rfl
  | succ n ih =>
      cases hr : m.step.result with
      | error e =>
          rw [begun_of_error hr, List.flatMap_singleton, executes_of_error hr, batch, hr]
      | ok _ => rw [begun_of_ok hr, List.flatMap_cons, ih, batch, hr]

theorem Machine.executes_frameSteps (m : Machine R) :
    m.frameSteps.flatMap executes = m.frameHistory := by
  unfold frameSteps frameHistory
  cases m.isHalted with
  | true => rfl
  | false => exact executes_begun _ _

theorem executes_steps (c : Call H) (m : Machine R) :
    (c.steps m).flatMap Machine.executes = c.history m := by
  cases c with
  | load _ | setKey _ _ | setKeys _ | takeFrame => rfl
  | step => exact List.flatMap_singleton _ m
  | frame => exact m.executes_frameSteps
  | refresh keys => exact (m.setKeys keys).executes_frameSteps
  | tick host => exact (m.setKeys (Host.keys host).1).executes_frameSteps

/-- Nothing is executed but by these steps. -/
theorem executes_stepsOf (calls : List (Call H)) (m : Machine R) :
    (stepsOf calls m).flatMap Machine.executes = history calls m := by
  induction calls generalizing m with
  | nil => rfl
  | cons c calls ih => rw [stepsOf, List.flatMap_append, executes_steps, ih, history]

end Executions

end Chip8
