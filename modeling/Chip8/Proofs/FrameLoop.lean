/-
# `Chip8.Proofs.FrameLoop` — runs of the frame loop, and requests

A run asks its host for another frame and ticks, in turns.  All it does to the
machine it does by ticks, so it keeps whatever ticks keep (`Kept.run`).

With whole runs beside the calls there is nothing more a machine can be asked
for: a *request* is a call or a run.  What calls keep, requests keep
(`Kept.request`), and only a load starts over.

Which of its operations a host was asked for shows in the host that is left.
An `Album` makes one of them visible: it passes everything on to another host
and keeps the pictures.
-/
import Chip8.Proofs.Calls

namespace Chip8

/-! ## A host with an album -/

/-- A host that keeps the pictures it is shown, oldest first, and leaves the rest to
another host. -/
structure Album (H : Type) where
  owner : H
  pictures : List Picture

instance albumHost {H : Type} [Host H] : Host (Album H) where
  keys a := ((Host.keys a.owner).1, { a with owner := (Host.keys a.owner).2 })
  render p a := ⟨Host.render p a.owner, a.pictures ++ [p]⟩
  wantsMore a := ((Host.wantsMore a.owner).1, { a with owner := (Host.wantsMore a.owner).2 })
  frameTime a := Host.frameTime a.owner
  pause time a := { a with owner := Host.pause time a.owner }

/-! ## One turn of the loop -/

namespace Console

theorem pause_machine {R H : Type} [Host H] (pace : Pace) (c : Console R H) :
    (c.pause pace).machine = c.machine := by
  unfold pause
  split <;> rfl

variable {R H : Type} [RandomSource R] [Host H]

theorem tick_of_ok {m : Machine R} {host : H}
    (h : (m.setKeys (Host.keys host).1).frame.result = .ok ()) :
    let served := (m.setKeys (Host.keys host).1).frame
    tick ⟨m, host⟩ =
      ⟨.ok (), ⟨served.state.takeFrame.2,
        Host.render ⟨served.state.screen, served.state.frameReady, served.state.soundOn⟩
          (Host.keys host).2⟩, served.log⟩ := by
  simp only [tick, h]
  rfl

theorem tick_of_error {m : Machine R} {host : H} {e : Stop Fault}
    (h : (m.setKeys (Host.keys host).1).frame.result = .error e) :
    let served := (m.setKeys (Host.keys host).1).frame
    tick ⟨m, host⟩ = ⟨.error e, ⟨served.state, (Host.keys host).2⟩, served.log⟩ := by
  simp only [tick, h]

/-- The host has been asked and wants another frame: one more tick. -/
def another (o : Outcome Fault (Console R H) Nat) : Outcome Fault (Console R H) Unit :=
  (⟨.ok (), o.state.wantsMore.2, o.log⟩ : Outcome Fault (Console R H) Unit).andThen fun () => tick

/-- One turn of the loop: frame number `frame` from the question to its end, after `late`
late ones. -/
def turn (pace : Pace) (frame late : Nat) (o : Outcome Fault (Console R H) Nat) :
    Outcome Fault (Console R H) Nat :=
  (another o).andThen fun () => endFrame pace frame late

theorem another_eq (o : Outcome Fault (Console R H) Nat) :
    let tick := o.state.wantsMore.2.tick
    another o = ⟨tick.result, tick.state, o.log ++ tick.log⟩ :=
  Outcome.andThen_of_ok _ rfl

section Turn
variable {o : Outcome Fault (Console R H) Nat} (pace : Pace) (frame late : Nat)

theorem turn_of_fault {e : Stop Fault} (h : o.state.wantsMore.2.tick.result = .error e) :
    turn pace frame late o =
      ⟨.error e, o.state.wantsMore.2.tick.state, o.log ++ o.state.wantsMore.2.tick.log⟩ := by
  have hanother : (another o).result = .error e := by
    rw [another_eq]
    exact h
  rw [turn, Outcome.andThen_of_error _ hanother, another_eq]

theorem turn_of_ok (h : o.state.wantsMore.2.tick.result = .ok ()) :
    let tick := o.state.wantsMore.2.tick
    let time := Host.frameTime tick.state.host
    turn pace frame late o = ⟨.ok (lateAfter late time), tick.state.pause pace,
      o.log ++ tick.log ++ timing late frame time⟩ := by
  intro tick time
  have hanother : (another o).result = .ok () := by
    rw [another_eq]
    exact h
  rw [turn, Outcome.andThen_of_ok _ hanother, another_eq]
  rfl

theorem turn_machine : (turn pace frame late o).state.machine =
    (tick ⟨o.state.machine, (Host.wantsMore o.state.host).2⟩).state.machine := by
  cases h : o.state.wantsMore.2.tick.result with
  | error e =>
      rw [turn_of_fault pace frame late h]
      rfl
  | ok _ =>
      rw [turn_of_ok pace frame late h]
      exact pause_machine pace _

end Turn

section Turns
variable {o : Outcome Fault (Console R H) Nat}

theorem runFrom_of_error {e : Stop Fault} (h : o.result = .error e) (pace : Pace)
    (room frames : Nat) : runFrom pace room frames o = ⟨.error e, o.state, o.log⟩ := by
  unfold runFrom
  rw [h]

variable {late : Nat} (h : o.result = .ok late)
include h

theorem runFrom_of_enough (hmore : (Host.wantsMore o.state.host).1 = false) (pace : Pace)
    (room frames : Nat) : runFrom pace room frames o =
      ⟨.ok frames, o.state.wantsMore.2, o.log.push (.finished frames)⟩ := by
  unfold runFrom
  simp only [h, wantsMore, hmore]
  rfl

theorem runFrom_of_more (hmore : (Host.wantsMore o.state.host).1 = true) (pace : Pace)
    (room frames : Nat) : runFrom pace room frames o = match room with
      | 0 => (another o).andThen fun () => .overflow
      | room + 1 => runFrom pace room (frames + 1) (turn pace (frames + 1) late o) := by
  conv => lhs; unfold runFrom
  simp only [h, wantsMore, hmore, if_true]
  rfl

theorem runFrom_of_fault (hmore : (Host.wantsMore o.state.host).1 = true) {e : Stop Fault}
    (htick : o.state.wantsMore.2.tick.result = .error e) (pace : Pace) (room frames : Nat) :
    runFrom pace room frames o =
      ⟨.error e, o.state.wantsMore.2.tick.state, o.log ++ o.state.wantsMore.2.tick.log⟩ := by
  rw [runFrom_of_more h hmore]
  cases room with
  | zero =>
      have hanother : (another o).result = .error e := by
        rw [another_eq]
        exact htick
      show (another o).andThen _ = _
      rw [Outcome.andThen_of_error _ hanother, another_eq]
  | succ room =>
      show runFrom pace room (frames + 1) (turn pace (frames + 1) late o) = _
      rw [turn_of_fault pace _ _ htick]
      exact runFrom_of_error rfl pace room (frames + 1)

end Turns

end Console

/-! ## What runs keep -/

section Kept
variable {R H : Type} [RandomSource R] [Host H] {P : Machine R → Prop}

theorem Kept.runFrom (hP : Kept P) (pace : Pace) (room frames : Nat)
    {o : Outcome Fault (Console R H) Nat} (ho : P o.state.machine) :
    P (Console.runFrom pace room frames o).state.machine := by
  cases hr : o.result with
  | error e =>
      rw [Console.runFrom_of_error hr]
      exact ho
  | ok late =>
      cases hmore : (Host.wantsMore o.state.host).1 with
      | false =>
          rw [Console.runFrom_of_enough hr hmore]
          exact ho
      | true =>
          have htick : P o.state.wantsMore.2.tick.state.machine := by
            rw [Console.wantsMore, Machine.tick_machine]
            exact hP.serve ho _
          rw [Console.runFrom_of_more hr hmore]
          cases room with
          | zero =>
              -- the count is full; whatever the last tick left stays
              cases he : (Console.another o).result with
              | error e => rw [Outcome.andThen_of_error _ he, Console.another_eq]; exact htick
              | ok _ => rw [Outcome.andThen_of_ok _ he, Console.another_eq]; exact htick
          | succ room =>
              have hturn : P (Console.turn pace (frames + 1) late o).state.machine := by
                rw [Console.turn_machine]
                exact htick
              exact Kept.runFrom hP pace room (frames + 1) hturn
  termination_by room

theorem Kept.run (hP : Kept P) (pace : Pace) (host : H) {m : Machine R} (hm : P m) :
    P (Console.run pace ⟨m, host⟩).state.machine :=
  hP.runFrom pace maxFrames 0 hm

end Kept

/-! ## Requests -/

/-- Whatever a machine can be asked for: a call, or a whole run. -/
inductive Request (H : Type) where
  | call (c : Call H)
  | run (pace : Pace) (host : H)

/-- What a request answers that is carried out. -/
inductive Answer where
  | replied (reply : Reply)
  | completed (frames : Nat)
  deriving DecidableEq

namespace Request

def Loads {H : Type} : Request H → Prop
  | .call c => c.Loads
  | .run _ _ => False

instance {H : Type} : (r : Request H) → Decidable r.Loads
  | .call c => inferInstanceAs (Decidable c.Loads)
  | .run _ _ => isFalse id

variable {R H : Type} [RandomSource R] [Host H]

/-- The operation that a request stands for.  Like a tick, a run leaves its host to
whoever asked. -/
def perform : Request H → Machine R → Outcome Refusal (Machine R) Answer
  | .call c, m => (c.perform m).translate id id .replied
  | .run pace host, m =>
      (Console.run pace ⟨m, host⟩).translate .stopped Console.machine .completed

end Request

section Perform
variable {R H : Type} [RandomSource R] [Host H]

def afterRequests (requests : List (Request H)) (m : Machine R) : Machine R :=
  requests.foldl (fun m r => (r.perform m).state) m

def answers : List (Request H) → Machine R → List (Outcome Refusal (Machine R) Answer)
  | [], _ => []
  | r :: requests, m => r.perform m :: answers requests (r.perform m).state

theorem Kept.request {P : Machine R → Prop} (hP : Kept P) {m : Machine R} (hm : P m)
    (r : Request H) (hload : r.Loads → P (r.perform m).state) : P (r.perform m).state := by
  cases r with
  | call c => exact hP.perform hm c hload
  | run pace host => exact hP.run pace host hm

theorem Kept.afterRequests {P : Machine R → Prop} (hP : Kept P) {requests : List (Request H)}
    {m : Machine R} (hrequests : ∀ r ∈ requests, ¬r.Loads) (hm : P m) :
    P (afterRequests requests m) := by
  induction requests generalizing m with
  | nil => exact hm
  | cons r requests ih =>
      obtain ⟨hr, hrest⟩ := List.forall_mem_cons.mp hrequests
      exact ih hrest (hP.request hm r fun h => absurd h hr)

end Perform

end Chip8
