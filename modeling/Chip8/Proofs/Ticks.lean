/-
# `Chip8.Proofs.Ticks` — a run is its ticks

All that a run of the frame loop does to its machine it does by ticks, and what it
logs besides are records of its own, of late frames and of its end
(`Event.OfLoop`); of late frames in a row it warns of the first one only
(`warns_iff`).  So a run is as good as the list of its ticks (`Console.ticks`)
and a request as good as a list of calls (`Request.calls`): what is known of calls
carries over to requests.

    the machine after requests    the machine after their calls (`after_callsOf`)
    the log of requests           the log of their calls, but for the records
                                  that the loop makes itself (`filter_recorded`)
-/
import Chip8.Proofs.FrameLoop

namespace Chip8

/-! ## What is logged -/

section Logged
variable {R H : Type} [RandomSource R] [Host H]

def logged : List (Call H) → Machine R → List Event
  | [], _ => []
  | c :: calls, m => (c.perform m).log.toList ++ logged calls (c.perform m).state

def recorded (requests : List (Request H)) (m : Machine R) : List Event :=
  (answers requests m).flatMap fun o => o.log.toList

theorem recorded_cons (r : Request H) (requests : List (Request H)) (m : Machine R) :
    recorded (r :: requests) m =
      (r.perform m).log.toList ++ recorded requests (r.perform m).state := by
  rw [recorded, answers, List.flatMap_cons, recorded]

theorem logged_append (calls calls' : List (Call H)) (m : Machine R) :
    logged (calls ++ calls') m = logged calls m ++ logged calls' (after calls m) := by
  induction calls generalizing m with
  | nil => rfl
  | cons c calls ih =>
      rw [List.cons_append, logged, logged, ih, List.append_assoc]
      rfl

end Logged

/-! ## What the loop logs itself -/

/-- The records that the frame loop makes itself. -/
def Event.OfLoop : Event → Prop
  | .late _ _ | .stillLate _ _ | .caughtUp _ | .finished _ => True
  | .loaded _ _ | .fetched _ _ | .halted _ => False

theorem Event.OfLoop.level_ne {e : Event} (h : e.OfLoop) :
    e.level ≠ .trace ∧ e.level ≠ .error := by
  cases e with
  | late _ _ | stillLate _ _ | caughtUp _ | finished _ => exact ⟨nofun, nofun⟩
  | loaded _ _ | fetched _ _ | halted _ => exact absurd h id

theorem ofLoop_timing {late frame time : Nat} : ∀ e ∈ timing late frame time, e.OfLoop := by
  intro e he
  unfold timing at he
  split at he
  · split at he
    · cases Array.mem_singleton.mp he
      trivial
    · exact absurd he (Array.not_mem_empty e)
  · split at he
    all_goals
      cases Array.mem_singleton.mp he
      trivial

theorem filter_timing {p : Event → Bool} (hp : ∀ e : Event, e.OfLoop → p e = false)
    (late frame time : Nat) : (timing late frame time).toList.filter p = [] := by
  rw [List.filter_eq_nil_iff]
  intro e he
  rw [hp e (ofLoop_timing e (Array.mem_toList_iff.mp he))]
  exact Bool.false_ne_true

theorem exists_warn_timing {late frame time : Nat} :
    (∃ e ∈ timing late frame time, e.level = .warn) ↔ late = 0 ∧ framePeriod < time := by
  unfold timing
  rcases Nat.lt_or_ge framePeriod time with hlate | hok
  · rw [if_neg (Nat.not_le_of_lt hlate)]
    split
    · simp [*, Event.level]
    · simp [*, Event.level]
  · rw [if_pos hok]
    split
    · simp [Nat.not_lt_of_le hok, Event.level]
    · simp [Nat.not_lt_of_le hok]

/-- Of late frames in a row the loop warns of the first one only. -/
theorem warns_iff (late frame before time : Nat) :
    (∃ e ∈ timing (lateAfter late before) frame time, e.level = .warn) ↔
      before ≤ framePeriod ∧ framePeriod < time := by
  have hstreak : lateAfter late before = 0 ↔ before ≤ framePeriod := by
    unfold lateAfter
    split <;> simp [*]
  rw [exists_warn_timing, hstreak]

/-! ## The ticks of a run -/

namespace Console

variable {R H : Type} [RandomSource R] [Host H]

/-- The ticks of a run that has room for `room` more frames in its count. -/
def ticks (pace : Pace) : Nat → Console R H → List (Call H)
  | room, c =>
      if c.wantsMore.1 then
        .tick c.wantsMore.2.host ::
          match c.wantsMore.2.tick.result, room with
          | .ok (), room + 1 => ticks pace room (c.wantsMore.2.tick.state.pause pace)
          | _, _ => []
      else []

theorem ticks_of_enough {c : Console R H} (hmore : (Host.wantsMore c.host).1 = false) (pace : Pace)
    (room : Nat) : ticks pace room c = [] := by
  have hmore' : c.wantsMore.1 = false := hmore
  unfold ticks
  rw [hmore']
  rfl

theorem ticks_of_fault {c : Console R H} (hmore : (Host.wantsMore c.host).1 = true)
    {e : Stop Fault} (htick : c.wantsMore.2.tick.result = .error e) (pace : Pace) (room : Nat) :
    ticks pace room c = [.tick c.wantsMore.2.host] := by
  have hmore' : c.wantsMore.1 = true := hmore
  unfold ticks
  rw [hmore', htick]
  rfl

theorem ticks_of_ok {c : Console R H} (hmore : (Host.wantsMore c.host).1 = true)
    (htick : c.wantsMore.2.tick.result = .ok ()) (pace : Pace) (room : Nat) :
    ticks pace room c = .tick c.wantsMore.2.host :: match room with
      | 0 => []
      | room + 1 => ticks pace room (c.wantsMore.2.tick.state.pause pace) := by
  have hmore' : c.wantsMore.1 = true := hmore
  conv => lhs; unfold ticks
  rw [hmore', htick]
  cases room <;> rfl

theorem filter_log_turn {p : Event → Bool} (hp : ∀ e : Event, e.OfLoop → p e = false)
    {o : Outcome Fault (Console R H) Nat} (htick : o.state.wantsMore.2.tick.result = .ok ())
    (pace : Pace) (frame late : Nat) :
    (turn pace frame late o).log.toList.filter p =
      o.log.toList.filter p ++ o.state.wantsMore.2.tick.log.toList.filter p := by
  rw [turn_of_ok pace frame late htick, Array.toList_append, Array.toList_append,
    List.filter_append, List.filter_append, filter_timing hp, List.append_nil]

/-- A run leaves the machine that its ticks leave, and but for the records that the loop
makes itself it logs what they log. -/
theorem runFrom_eq_ticks (pace : Pace) (room frames : Nat) {late : Nat}
    {o : Outcome Fault (Console R H) Nat} (ho : o.result = .ok late) :
    let final := runFrom pace room frames o
    let calls := ticks pace room o.state
    final.state.machine = after calls o.state.machine ∧
      ∀ p : Event → Bool, (∀ e : Event, e.OfLoop → p e = false) →
        final.log.toList.filter p =
          o.log.toList.filter p ++ (logged calls o.state.machine).filter p := by
  intro final calls
  cases hmore : (Host.wantsMore o.state.host).1 with
  | false =>
      have hfinal : final = _ := runFrom_of_enough ho hmore pace room frames
      have hcalls : calls = [] := ticks_of_enough hmore pace room
      rw [hfinal, hcalls]
      refine ⟨rfl, ?_⟩
      intro p hp
      have hend : p (.finished frames) = false := hp _ trivial
      rw [Array.toList_push, List.filter_append, List.filter_cons_of_neg (by simp [hend])]
      rfl
  | true =>
      have hlog : (Call.perform (.tick o.state.wantsMore.2.host) o.state.machine).log =
        o.state.wantsMore.2.tick.log := rfl
      cases htick : o.state.wantsMore.2.tick.result with
      | error e =>
          have hfinal : final = _ := runFrom_of_fault ho hmore htick pace room frames
          have hcalls : calls = _ := ticks_of_fault hmore htick pace room
          rw [hfinal, hcalls]
          refine ⟨rfl, ?_⟩
          intro p _
          rw [Array.toList_append, List.filter_append, logged, hlog, logged, List.append_nil]
      | ok _ =>
          have hfinal : final = _ := runFrom_of_more ho hmore pace room frames
          have hcalls : calls = _ := ticks_of_ok hmore htick pace room
          rw [hfinal, hcalls, after_cons]
          cases room with
          | zero =>
              -- the count is full; there is no room for a record either
              have hanother : (another o).result = .ok () := by
                rw [another_eq]
                exact htick
              show ((another o).andThen _).state.machine = _ ∧ _
              rw [Outcome.andThen_of_ok _ hanother, another_eq]
              refine ⟨rfl, ?_⟩
              intro p _
              simp [Outcome.overflow, logged, hlog]
          | succ room =>
              have hturn := turn_of_ok pace (frames + 1) late htick
              have hstate : (turn pace (frames + 1) late o).state =
                  o.state.wantsMore.2.tick.state.pause pace := by rw [hturn]
              have hmachine : (turn pace (frames + 1) late o).state.machine =
                  (Call.perform (.tick o.state.wantsMore.2.host) o.state.machine).state :=
                turn_machine pace (frames + 1) late
              obtain ⟨hrest, hlogs⟩ := runFrom_eq_ticks pace room (frames + 1)
                (o := turn pace (frames + 1) late o) (by rw [hturn])
              rw [hmachine, hstate] at hrest hlogs
              refine ⟨hrest, ?_⟩
              intro p hp
              rw [hlogs p hp, filter_log_turn hp htick, logged, List.filter_append, hlog,
                List.append_assoc]
  termination_by room

theorem run_eq_ticks (pace : Pace) (m : Machine R) (host : H) :
    let final := run pace ⟨m, host⟩
    let calls := ticks pace maxFrames ⟨m, host⟩
    final.state.machine = after calls m ∧
      ∀ p : Event → Bool, (∀ e : Event, e.OfLoop → p e = false) →
        final.log.toList.filter p = (logged calls m).filter p :=
  runFrom_eq_ticks pace maxFrames 0 (o := .done 0 ⟨m, host⟩) rfl

theorem not_loads_of_mem_ticks (pace : Pace) (room : Nat) {c : Console R H} {call : Call H}
    (hcall : call ∈ ticks pace room c) : ¬call.Loads := by
  cases hmore : (Host.wantsMore c.host).1 with
  | false =>
      rw [ticks_of_enough hmore] at hcall
      exact absurd hcall List.not_mem_nil
  | true =>
      cases htick : c.wantsMore.2.tick.result with
      | error e =>
          rw [ticks_of_fault hmore htick, List.mem_singleton] at hcall
          exact hcall ▸ id
      | ok _ =>
          rw [ticks_of_ok hmore htick] at hcall
          rcases List.mem_cons.mp hcall with rfl | hcall
          · exact id
          · cases room with
            | zero => exact absurd hcall List.not_mem_nil
            | succ room => exact not_loads_of_mem_ticks pace room hcall
  termination_by room

end Console

/-! ## Requests as calls -/

section Requests
variable {R H : Type} [RandomSource R] [Host H]

def Request.calls : Request H → Machine R → List (Call H)
  | .call c, _ => [c]
  | .run pace host, m => Console.ticks pace maxFrames ⟨m, host⟩

def callsOf : List (Request H) → Machine R → List (Call H)
  | [], _ => []
  | r :: requests, m => r.calls m ++ callsOf requests (r.perform m).state

theorem after_calls (r : Request H) (m : Machine R) : after (r.calls m) m = (r.perform m).state := by
  cases r with
  | call c => rfl
  | run pace host => exact (Console.run_eq_ticks pace m host).1.symm

theorem after_callsOf (requests : List (Request H)) (m : Machine R) :
    after (callsOf requests m) m = afterRequests requests m := by
  induction requests generalizing m with
  | nil => rfl
  | cons r requests ih => rw [callsOf, after_append, after_calls, ih]; rfl

section Filter
variable {p : Event → Bool} (hp : ∀ e : Event, e.OfLoop → p e = false)
include hp

/-- But for the records that the loop makes itself, a request logs what its calls log. -/
theorem filter_log_perform (r : Request H) (m : Machine R) :
    (r.perform m).log.toList.filter p = (logged (r.calls m) m).filter p := by
  cases r with
  | call c =>
      show (c.perform m).log.toList.filter p = ((c.perform m).log.toList ++ []).filter p
      rw [List.append_nil]
  | run pace host => exact (Console.run_eq_ticks pace m host).2 p hp

theorem filter_recorded (requests : List (Request H)) (m : Machine R) :
    (recorded requests m).filter p = (logged (callsOf requests m) m).filter p := by
  induction requests generalizing m with
  | nil => rfl
  | cons r requests ih =>
      rw [recorded_cons, callsOf, logged_append, List.filter_append, List.filter_append, ih,
        filter_log_perform hp, after_calls]

end Filter

end Requests

end Chip8
