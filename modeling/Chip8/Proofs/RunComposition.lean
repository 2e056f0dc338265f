/-
# `Chip8.Proofs.RunComposition` — two runs in a row are one

Of a host that plays a script a run sees the pictures it keeps and the frames it is
allowed, and nothing else (`Player`).  The frames a run is allowed are ticks, one after
the other, until one fails (`runFrom_isTicks`); what it asks its host in between, and how
long it waits, does not show in them.  So a run of n frames and then one of k is a run of
n + k (`runs_compose`):

    first        second       whole
    fails        —            fails with it
    n frames     fails        fails with it
    n frames     k frames     n + k frames

A run that fails in the tick after j others has rendered j pictures and asked for j + 1
frames.
-/
import Chip8.Host.Replay
import Chip8.Proofs.FrontEnds

namespace Chip8

/-! ## Hosts that play -/

/-- A host that acts as a replay does.  What it holds depends on the pictures it was
shown, it keeps them all, and it wants as many frames as it is allowed. -/
structure Player (H : Type) [Host H] where
  /-- The replay that it is like. -/
  view : H → Replay
  /-- Allows it so many frames. -/
  grant : Nat → H → H
  view_grant : ∀ n h, view (grant n h) = { view h with allowance := some n }
  view_keys : ∀ h, ((Host.keys h).1, view (Host.keys h).2) = Host.keys (view h)
  view_render : ∀ p h, view (Host.render p h) = Host.render p (view h)
  view_wantsMore : ∀ h,
    ((Host.wantsMore h).1, view (Host.wantsMore h).2) = Host.wantsMore (view h)
  view_pause : ∀ time h, view (Host.pause time h) = view h

/-- A count of the times that a host was asked whether it wants another frame. -/
structure CountsQuestions {H : Type} [Host H] (asked : H → Nat) : Prop where
  keys : ∀ h, asked (Host.keys h).2 = asked h
  render : ∀ p h, asked (Host.render p h) = asked h
  wantsMore : ∀ h, asked (Host.wantsMore h).2 = asked h + 1
  pause : ∀ time h, asked (Host.pause time h) = asked h

namespace Player

variable {R H : Type} [Host H]

def pictures (player : Player H) (h : H) : Array Picture := (player.view h).pictures

/-- What is seen of it without the questions: a replay that wants frames without end. -/
def watched (player : Player H) (h : H) : Replay := { player.view h with allowance := none }

/-- What is seen of a console without the questions its host was asked. -/
def seen (player : Player H) (c : Console R H) : Console R Replay :=
  ⟨c.machine, player.watched c.host⟩

variable (player : Player H)

theorem pictures_eq_seen (c : Console R H) :
    player.pictures c.host = (player.seen c).host.pictures := rfl

theorem watched_grant (n : Nat) (h : H) : player.watched (player.grant n h) = player.watched h := by
  simp only [watched, player.view_grant]

theorem view_keys_snd (h : H) : player.view (Host.keys h).2 = player.view h :=
  congrArg Prod.snd (player.view_keys h)

theorem watched_keys (h : H) : player.watched (Host.keys h).2 = player.watched h := by
  rw [watched, player.view_keys_snd]
  rfl

theorem keys_watched (h : H) :
    Host.keys (player.watched h) = ((Host.keys h).1, player.watched h) := by
  have hheld : (Host.keys h).1 = (Host.keys (player.view h)).1 :=
    congrArg Prod.fst (player.view_keys h)
  rw [hheld]
  rfl

theorem watched_render (p : Picture) (h : H) :
    player.watched (Host.render p h) = Host.render p (player.watched h) := by
  rw [watched, player.view_render]
  rfl

theorem watched_wantsMore (h : H) : player.watched (Host.wantsMore h).2 = player.watched h := by
  have hview : player.view (Host.wantsMore h).2 = (player.view h).wantsMore.2 :=
    congrArg Prod.snd (player.view_wantsMore h)
  rw [watched, watched, hview, Replay.wantsMore]
  split <;> rfl

theorem wantsMore_of_none_left {h : H} (hleft : (player.view h).allowance = some 0) :
    (Host.wantsMore h).1 = false := by
  have hanswer : (Host.wantsMore h).1 = (player.view h).wantsMore.1 :=
    congrArg Prod.fst (player.view_wantsMore h)
  rw [hanswer, Replay.wantsMore, hleft]

theorem wantsMore_of_left {h : H} {n : Nat} (hleft : (player.view h).allowance = some (n + 1)) :
    (Host.wantsMore h).1 = true ∧ (player.view (Host.wantsMore h).2).allowance = some n := by
  have hanswer : ((Host.wantsMore h).1, player.view (Host.wantsMore h).2) =
      (player.view h).wantsMore := player.view_wantsMore h
  rw [Replay.wantsMore, hleft, Prod.ext_iff] at hanswer
  exact ⟨hanswer.1, congrArg Replay.allowance hanswer.2⟩

theorem seen_wantsMore (c : Console R H) : player.seen c.wantsMore.2 = player.seen c :=
  congrArg (Console.mk c.machine) (player.watched_wantsMore c.host)

theorem view_wait (pace : Pace) (c : Console R H) :
    player.view (c.pause pace).host = player.view c.host := by
  unfold Console.pause
  cases pace.rest? (Host.frameTime c.host) with
  | none => rfl
  | some time => exact player.view_pause time c.host

theorem seen_wait (pace : Pace) (c : Console R H) : player.seen (c.pause pace) = player.seen c := by
  rw [seen, watched, player.view_wait, Console.pause_machine]
  rfl

variable [RandomSource R]

/-- The questions a host was asked make no difference to a tick. -/
theorem tick_seen (c : Console R H) :
    Outcome.Alike (fun c r => player.seen c = r) c.tick (player.seen c).tick := by
  obtain ⟨m, h⟩ := c
  show Outcome.Alike _ _ (Console.tick ⟨m, player.watched h⟩)
  cases hr : (m.setKeys (Host.keys h).1).frame.result with
  | error e =>
      have hseen : (m.setKeys (Host.keys (player.watched h)).1).frame.result = .error e := by
        rw [player.keys_watched]
        exact hr
      rw [Console.tick_of_error hr, Console.tick_of_error hseen, player.keys_watched]
      exact ⟨rfl, rfl, congrArg (Console.mk _) (player.watched_keys h)⟩
  | ok _ =>
      have hseen : (m.setKeys (Host.keys (player.watched h)).1).frame.result = .ok () := by
        rw [player.keys_watched]
        exact hr
      rw [Console.tick_of_ok hr, Console.tick_of_ok hseen, player.keys_watched]
      refine ⟨rfl, rfl, ?_⟩
      rw [seen, player.watched_render, player.watched_keys]

theorem seen_ticked (i : Nat) (c : Console R H) :
    player.seen (Console.ticked i c) = Console.ticked i (player.seen c) := by
  induction i with
  | zero => rfl
  | succ i ih => rw [Console.ticked, (player.tick_seen _).state, ih, Console.ticked]

theorem ticked_result (i : Nat) (c : Console R H) :
    (Console.ticked i c).tick.result = (Console.ticked i (player.seen c)).tick.result := by
  rw [← player.seen_ticked]
  exact (player.tick_seen _).result

theorem allowance_tick (c : Console R H) :
    (player.view c.tick.state.host).allowance = (player.view c.host).allowance := by
  obtain ⟨m, h⟩ := c
  cases hr : (m.setKeys (Host.keys h).1).frame.result with
  | error e => rw [Console.tick_of_error hr, player.view_keys_snd]
  | ok _ =>
      rw [Console.tick_of_ok hr]
      show (player.view (Host.render _ (Host.keys h).2)).allowance = _
      rw [player.view_render, player.view_keys_snd]
      rfl

theorem seen_turn {o : Outcome Fault (Console R H) Nat}
    (hr : o.state.wantsMore.2.tick.result = .ok ()) (pace : Pace) (frame late : Nat) :
    (player.seen o.state).tick.result = .ok () ∧
      player.seen (Console.turn pace frame late o).state = (player.seen o.state).tick.state := by
  have htick := player.tick_seen o.state.wantsMore.2
  rw [player.seen_wantsMore] at htick
  refine ⟨htick.result ▸ hr, ?_⟩
  rw [Console.turn_of_ok pace frame late hr, player.seen_wait]
  exact htick.state

end Player

/-! ## Ticks in a row -/

section Rows
variable {R H : Type} [RandomSource R] [Host H]

/-- Up to `n` ticks; the first that fails is the last. -/
def Console.tickTimes (n : Nat) (c : Console R H) : Outcome Fault (Console R H) Unit :=
  .repeated Console.tick n (.done () c)

theorem tickTimes_succ (n : Nat) (c : Console R H) :
    c.tickTimes (n + 1) = c.tick.andThen fun _ c => c.tickTimes n :=
  Outcome.repeated_done_succ Console.tick n c

theorem tickTimes_add (n k : Nat) (c : Console R H) :
    c.tickTimes (n + k) = (c.tickTimes n).andThen fun _ c => c.tickTimes k :=
  Outcome.repeated_add Console.tick n k c

theorem tickTimes_succ_of_ok {c : Console R H} (h : c.tick.result = .ok ()) (n : Nat) :
    (c.tickTimes (n + 1)).result = (c.tick.state.tickTimes n).result ∧
      (c.tickTimes (n + 1)).state = (c.tick.state.tickTimes n).state := by
  rw [tickTimes_succ, Outcome.andThen_of_ok _ h]
  exact ⟨rfl, rfl⟩

theorem tickTimes_succ_of_error {c : Console R H} {e : Stop Fault} (h : c.tick.result = .error e)
    (n : Nat) : (c.tickTimes (n + 1)).result = .error e ∧
      (c.tickTimes (n + 1)).state = c.tick.state := by
  rw [tickTimes_succ, Outcome.andThen_of_error _ h]
  exact ⟨rfl, rfl⟩

theorem tickTimes_add_of_ok {c : Console R H} {n : Nat} (h : (c.tickTimes n).result = .ok ())
    (k : Nat) : (c.tickTimes (n + k)).result = ((c.tickTimes n).state.tickTimes k).result ∧
      (c.tickTimes (n + k)).state = ((c.tickTimes n).state.tickTimes k).state := by
  rw [tickTimes_add, Outcome.andThen_of_ok _ h]
  exact ⟨rfl, rfl⟩

theorem tickTimes_add_of_error {c : Console R H} {n : Nat} {e : Stop Fault}
    (h : (c.tickTimes n).result = .error e) (k : Nat) :
    (c.tickTimes (n + k)).result = .error e ∧
      (c.tickTimes (n + k)).state = (c.tickTimes n).state := by
  rw [tickTimes_add, Outcome.andThen_of_error _ h]
  exact ⟨rfl, rfl⟩

theorem tickTimes_of_ok {c : Console R H} {j : Nat}
    (h : ∀ i < j, (Console.ticked i c).tick.result = .ok ()) :
    (c.tickTimes j).result = .ok () ∧ (c.tickTimes j).state = Console.ticked j c := by
  induction j with
  | zero => exact ⟨rfl, rfl⟩
  | succ j ih =>
      obtain ⟨hok, hstate⟩ := ih fun i hi => h i (Nat.lt_succ_of_lt hi)
      have hsum := tickTimes_add_of_ok hok 1
      have hlast := tickTimes_succ_of_ok (h j (Nat.lt_succ_self j)) 0
      rw [hstate] at hsum
      exact ⟨hsum.1.trans hlast.1, hsum.2.trans hlast.2⟩

theorem tickTimes_of_error {c : Console R H} {j n : Nat} (hj : j < n)
    (h : ∀ i < j, (Console.ticked i c).tick.result = .ok ()) {e : Stop Fault}
    (he : (Console.ticked j c).tick.result = .error e) :
    (c.tickTimes n).result = .error e ∧ (c.tickTimes n).state = Console.ticked (j + 1) c := by
  obtain ⟨k, rfl⟩ := Nat.exists_eq_add_of_lt hj
  obtain ⟨hok, hstate⟩ := tickTimes_of_ok h
  have hsum := tickTimes_add_of_ok hok (k + 1)
  have hlast := tickTimes_succ_of_error he k
  rw [hstate] at hsum
  exact ⟨hsum.1.trans hlast.1, hsum.2.trans hlast.2⟩

theorem size_pictures_tick_of_ok {c : Console R Replay} (h : c.tick.result = .ok ()) :
    c.tick.state.host.pictures.size = c.host.pictures.size + 1 := by
  obtain ⟨m, replay⟩ := c
  cases hr : (m.setKeys (Host.keys replay).1).frame.result with
  | error e => rw [Console.tick_of_error hr] at h; cases h
  | ok _ => rw [Console.tick_of_ok hr]; exact Array.size_push _

theorem size_pictures_tick_of_error {c : Console R Replay} {e : Stop Fault}
    (h : c.tick.result = .error e) : c.tick.state.host.pictures.size = c.host.pictures.size := by
  obtain ⟨m, replay⟩ := c
  cases hr : (m.setKeys (Host.keys replay).1).frame.result with
  | error e => rw [Console.tick_of_error hr]; rfl
  | ok _ => rw [Console.tick_of_ok hr] at h; cases h

theorem size_pictures_ticked {c : Console R Replay} {j : Nat}
    (h : ∀ i < j, (Console.ticked i c).tick.result = .ok ()) :
    (Console.ticked j c).host.pictures.size = c.host.pictures.size + j := by
  induction j with
  | zero => rfl
  | succ j ih =>
      have hbefore := ih fun i hi => h i (Nat.lt_succ_of_lt hi)
      have hlast := h j (Nat.lt_succ_self j)
      rw [Console.ticked, size_pictures_tick_of_ok hlast, hbefore, Nat.add_assoc]

namespace CountsQuestions

variable {asked : H → Nat} (hasked : CountsQuestions asked)
include hasked

theorem tick (c : Console R H) : asked c.tick.state.host = asked c.host := by
  obtain ⟨m, h⟩ := c
  cases hr : (m.setKeys (Host.keys h).1).frame.result with
  | error e => rw [Console.tick_of_error hr]; exact hasked.keys h
  | ok _ => rw [Console.tick_of_ok hr]; exact (hasked.render _ _).trans (hasked.keys h)

omit [RandomSource R] in
theorem wait (pace : Pace) (c : Console R H) : asked (c.pause pace).host = asked c.host := by
  unfold Console.pause
  cases pace.rest? (Host.frameTime c.host) with
  | none => rfl
  | some time => exact hasked.pause time c.host

end CountsQuestions

end Rows

/-! ## Runs -/

section Runs
variable {R H : Type} [RandomSource R] [Host H] (player : Player H)

/-- A run from `o` on that is allowed `n` frames: it is `n` ticks, as far as they go, and
it asks once more than it shows pictures. -/
structure RunIsTicks (n frames : Nat) (o : Outcome Fault (Console R H) Nat)
    (final : Outcome Fault (Console R H) Nat) : Prop where
  result : final.result = ((player.seen o.state).tickTimes n).result.map fun _ => frames + n
  state : player.seen final.state = ((player.seen o.state).tickTimes n).state
  asked : ∀ asked : H → Nat, CountsQuestions asked →
    asked final.state.host + (player.pictures o.state.host).size =
      asked o.state.host + (player.pictures final.state.host).size + 1

namespace RunIsTicks

variable {player : Player H} {n frames late : Nat} {o : Outcome Fault (Console R H) Nat}

theorem of_none_left (hok : o.result = .ok late)
    (hleft : (player.view o.state.host).allowance = some 0) (pace : Pace) (room : Nat) :
    RunIsTicks player 0 frames o (Console.runFrom pace room frames o) := by
  rw [Console.runFrom_of_enough hok (player.wantsMore_of_none_left hleft)]
  refine ⟨rfl, player.seen_wantsMore o.state, ?_⟩
  intro asked hasked
  have hcount : asked o.state.wantsMore.2.host = asked o.state.host + 1 := hasked.wantsMore _
  have hpictures : player.pictures o.state.wantsMore.2.host = player.pictures o.state.host := by
    rw [player.pictures_eq_seen, player.seen_wantsMore]
    rfl
  simp only [hcount, hpictures]
  omega

theorem of_fault (hok : o.result = .ok late)
    (hleft : (player.view o.state.host).allowance = some (n + 1)) {e : Stop Fault}
    (hr : o.state.wantsMore.2.tick.result = .error e) (pace : Pace) (room : Nat) :
    RunIsTicks player (n + 1) frames o (Console.runFrom pace room frames o) := by
  have htick := player.tick_seen o.state.wantsMore.2
  rw [player.seen_wantsMore] at htick
  have hfails : (player.seen o.state).tick.result = .error e := htick.result ▸ hr
  have hticks := tickTimes_succ_of_error hfails n
  rw [Console.runFrom_of_fault hok (player.wantsMore_of_left hleft).1 hr]
  refine ⟨by rw [hticks.1]; rfl, htick.state.trans hticks.2.symm, ?_⟩
  intro asked hasked
  have hcount : asked o.state.wantsMore.2.tick.state.host = asked o.state.host + 1 :=
    (hasked.tick _).trans (hasked.wantsMore _)
  have hpictures : (player.pictures o.state.wantsMore.2.tick.state.host).size =
      (player.pictures o.state.host).size := by
    rw [player.pictures_eq_seen, htick.state]
    exact size_pictures_tick_of_error hfails
  simp only [hcount, hpictures]
  omega

theorem of_turn (hr : o.state.wantsMore.2.tick.result = .ok ()) (pace : Pace)
    {final : Outcome Fault (Console R H) Nat}
    (hrest : RunIsTicks player n (frames + 1) (Console.turn pace (frames + 1) late o) final) :
    RunIsTicks player (n + 1) frames o final := by
  obtain ⟨hcompleted, hnext⟩ := player.seen_turn hr pace (frames + 1) late
  have hticks := tickTimes_succ_of_ok hcompleted n
  refine ⟨?_, ?_, ?_⟩
  · rw [hrest.result, hnext, hticks.1, Nat.add_right_comm]
    rfl
  · rw [hrest.state, hnext, hticks.2]
  · intro asked hasked
    have hcount : asked (Console.turn pace (frames + 1) late o).state.host =
        asked o.state.host + 1 := by
      rw [Console.turn_of_ok pace _ _ hr, hasked.wait, hasked.tick]
      exact hasked.wantsMore _
    have hpictures : (player.pictures (Console.turn pace (frames + 1) late o).state.host).size =
        (player.pictures o.state.host).size + 1 := by
      rw [player.pictures_eq_seen, hnext]
      exact size_pictures_tick_of_ok hcompleted
    have hlater := hrest.asked asked hasked
    rw [hcount, hpictures] at hlater
    omega

end RunIsTicks

theorem runFrom_isTicks (pace : Pace) (n : Nat) {room frames late : Nat} (hroom : n ≤ room)
    {o : Outcome Fault (Console R H) Nat} (hok : o.result = .ok late)
    (hleft : (player.view o.state.host).allowance = some n) :
    RunIsTicks player n frames o (Console.runFrom pace room frames o) := by
  induction n generalizing room frames late o with
  | zero => exact .of_none_left hok hleft pace room
  | succ n ih =>
      obtain ⟨hmore, hleft'⟩ := player.wantsMore_of_left hleft
      cases hr : o.state.wantsMore.2.tick.result with
      | error e => exact .of_fault hok hleft hr pace room
      | ok _ =>
          obtain ⟨room, rfl⟩ : ∃ r, room = r + 1 :=
            Nat.exists_eq_add_one.mpr (Nat.lt_of_lt_of_le (Nat.succ_pos n) hroom)
          have hturn := Console.turn_of_ok pace (frames + 1) late hr
          have hturnLeft : (player.view
              (Console.turn pace (frames + 1) late o).state.host).allowance = some n := by
            rw [hturn, player.view_wait, player.allowance_tick]
            exact hleft'
          rw [Console.runFrom_of_more hok hmore]
          exact .of_turn hr pace (ih (Nat.le_of_succ_le_succ hroom) (by rw [hturn]) hturnLeft)

/-! What becomes of the answer of some ticks if only their number is told. -/

theorem map_eq_error_iff {result : Except (Stop Fault) Unit} {n : Nat} {e : Stop Fault} :
    result.map (fun _ => n) = .error e ↔ result = .error e := by
  cases result <;> simp [Except.map]

theorem map_eq_ok_iff {result : Except (Stop Fault) Unit} {n frames : Nat} :
    result.map (fun _ => n) = .ok frames ↔ result = .ok () ∧ frames = n := by
  cases result <;> simp [Except.map, eq_comm]

theorem map_add (n k : Nat) (result : Except (Stop Fault) Unit) :
    result.map (fun _ => n + k) = (result.map fun _ => k).map (n + ·) := by
  cases result <;> rfl

/-- A run that is allowed `n` frames, whatever its host was allowed before. -/
theorem run_isTicks (pace : Pace) (m : Machine R) (host : H) {n : Nat} (hroom : n < UInt64.size) :
    let ticks := (player.seen ⟨m, host⟩).tickTimes n
    let final := Console.run pace ⟨m, player.grant n host⟩
    final.result = ticks.result.map (fun _ => n) ∧ player.seen final.state = ticks.state ∧
    ∀ asked : H → Nat, CountsQuestions asked →
      asked final.state.host + (player.pictures host).size =
        asked (player.grant n host) + (player.pictures final.state.host).size + 1 := by
  intro ticks final
  have hmax : n ≤ maxFrames := Nat.le_sub_one_of_lt hroom
  have hleft : (player.view (player.grant n host)).allowance = some n := by
    rw [player.view_grant]
  have hrun : RunIsTicks player n 0 (.done 0 ⟨m, player.grant n host⟩) final :=
    runFrom_isTicks player pace n hmax rfl hleft
  have hstart : player.seen ⟨m, player.grant n host⟩ = player.seen ⟨m, host⟩ :=
    congrArg (Console.mk m) (player.watched_grant n host)
  have hpictures : player.pictures (player.grant n host) = player.pictures host :=
    congrArg (fun c : Console R Replay => c.host.pictures) hstart
  obtain ⟨hresult, hstate, hasked⟩ := hrun
  simp only [Outcome.done_state, hstart, Nat.zero_add, hpictures] at hresult hstate hasked
  exact ⟨hresult, hstate, hasked⟩

/-- The machine and the pictures that two runs leave are the same. -/
def LeavesSame (o o' : Outcome Fault (Console R H) Nat) : Prop :=
  o.state.machine = o'.state.machine ∧
    player.pictures o.state.host = player.pictures o'.state.host

omit [RandomSource R] in
theorem leavesSame_of_seen {player : Player H} {o o' : Outcome Fault (Console R H) Nat}
    (h : player.seen o.state = player.seen o'.state) : LeavesSame player o o' :=
  ⟨congrArg (fun c : Console R Replay => c.machine) h,
    congrArg (fun c : Console R Replay => c.host.pictures) h⟩

/-- A run that is allowed enough frames for one of them to fail. -/
theorem run_of_fault (pace : Pace) (m : Machine R) (host : H) {n j : Nat}
    (hroom : n < UInt64.size) (hj : j < n)
    (hok : ∀ i < j, (Console.ticked i ⟨m, host⟩).tick.result = .ok ()) {e : Stop Fault}
    (he : (Console.ticked j ⟨m, host⟩).tick.result = .error e) :
    let final := Console.run pace ⟨m, player.grant n host⟩
    final.result = .error e ∧
    (player.pictures final.state.host).size = (player.pictures host).size + j ∧
    ∀ asked : H → Nat, CountsQuestions asked →
      asked final.state.host = asked (player.grant n host) + (j + 1) := by
  intro final
  obtain ⟨hresult, hstate, hasked⟩ := run_isTicks player pace m host hroom
  simp only [player.ticked_result] at hok he
  obtain ⟨herror, hticks⟩ := tickTimes_of_error hj hok he
  have hshown : (player.pictures final.state.host).size = (player.pictures host).size + j := by
    rw [player.pictures_eq_seen, hstate, hticks, Console.ticked,
      size_pictures_tick_of_error he, size_pictures_ticked hok]
    rfl
  refine ⟨by rw [hresult, herror]; rfl, hshown, ?_⟩
  intro asked hcounts
  have hcount : asked final.state.host + _ = _ + (player.pictures final.state.host).size + 1 :=
    hasked asked hcounts
  rw [hshown] at hcount
  omega

/-- A run that is allowed `n` frames, all of which are completed. -/
theorem run_of_ok (pace : Pace) (m : Machine R) (host : H) {n : Nat} (hroom : n < UInt64.size)
    (hok : ∀ i < n, (Console.ticked i ⟨m, host⟩).tick.result = .ok ()) :
    (Console.run pace ⟨m, player.grant n host⟩).result = .ok n := by
  simp only [player.ticked_result] at hok
  rw [(run_isTicks player pace m host hroom).1, (tickTimes_of_ok hok).1]
  rfl

/-- A run of `n` frames and then, unless it failed, one of `k` leave what one run of
`n + k` leaves, and it answers as they do.  If `j` frames are completed and the next one
fails, the run fails with it, after `j` pictures, and does not ask its host again.  Whether
it waits for its frames to end makes no difference. -/
theorem runs_compose (m : Machine R) (host : H) {n k : Nat} (hroom : n + k < UInt64.size)
    (pace₁ pace₂ pace : Pace) :
    let first := Console.run pace₁ ⟨m, player.grant n host⟩
    let second := Console.run pace₂ ⟨first.state.machine, player.grant k first.state.host⟩
    let whole := Console.run pace ⟨m, player.grant (n + k) host⟩
    (∀ e, first.result = .error e → whole.result = .error e ∧ LeavesSame player whole first) ∧
    (∀ frames, first.result = .ok frames → frames = n ∧
      whole.result = second.result.map (n + ·) ∧ LeavesSame player whole second ∧
      ∀ frames', second.result = .ok frames' → frames' = k) ∧
    (∀ j < n + k, (∀ i < j, (Console.ticked i ⟨m, host⟩).tick.result = .ok ()) →
      ∀ e, (Console.ticked j ⟨m, host⟩).tick.result = .error e → whole.result = .error e ∧
      (player.pictures whole.state.host).size = (player.pictures host).size + j ∧
      ∀ asked : H → Nat, CountsQuestions asked →
        asked whole.state.host = asked (player.grant (n + k) host) + (j + 1)) ∧
    ((∀ i < n + k, (Console.ticked i ⟨m, host⟩).tick.result = .ok ()) →
      whole.result = .ok (n + k)) ∧
    ∀ pace' : Pace,
      let again := Console.run pace' ⟨m, player.grant (n + k) host⟩
      again.result = whole.result ∧ LeavesSame player again whole := by
  intro first second whole
  have hn : n < UInt64.size := Nat.lt_of_le_of_lt (Nat.le_add_right n k) hroom
  have hk : k < UInt64.size := Nat.lt_of_le_of_lt (Nat.le_add_left k n) hroom
  obtain ⟨hfirst, hfirstState, -⟩ := run_isTicks player pace₁ m host hn
  obtain ⟨hsecond, hsecondState, -⟩ :=
    run_isTicks player pace₂ first.state.machine first.state.host hk
  obtain ⟨hwhole, hwholeState, -⟩ := run_isTicks player pace m host hroom
  refine ⟨?_, ?_, fun j hj hok e he => run_of_fault player pace m host hroom hj hok he,
    run_of_ok player pace m host hroom, ?_⟩
  · intro e he
    have hsum := tickTimes_add_of_error (map_eq_error_iff.mp (hfirst ▸ he)) k
    refine ⟨by rw [hwhole, hsum.1]; rfl, leavesSame_of_seen ?_⟩
    rw [hwholeState, hsum.2, hfirstState]
  · intro frames hframes
    obtain ⟨hok, hcount⟩ := map_eq_ok_iff.mp (hfirst ▸ hframes)
    have hsum := tickTimes_add_of_ok hok k
    rw [← hfirstState] at hsum
    refine ⟨hcount, ?_, leavesSame_of_seen ?_, ?_⟩
    · rw [hwhole, hsum.1, hsecond]
      exact map_add n k _
    · rw [hwholeState, hsum.2, hsecondState]
    · intro frames' hframes'
      exact (map_eq_ok_iff.mp (hsecond ▸ hframes')).2
  · intro pace' again
    obtain ⟨hagain, hagainState, -⟩ := run_isTicks player pace' m host hroom
    exact ⟨hagain.trans hwhole.symm, leavesSame_of_seen (hagainState.trans hwholeState.symm)⟩

end Runs

/-! ## A host that counts -/

/-- A host that counts how often it is asked for more, and leaves everything to another. -/
structure Counted (H : Type) where
  owner : H
  asked : Nat

section Counting
variable {H : Type} [Host H]

instance countedHost : Host (Counted H) where
  keys h := ((Host.keys h.owner).1, { h with owner := (Host.keys h.owner).2 })
  render p h := { h with owner := Host.render p h.owner }
  wantsMore h := ((Host.wantsMore h.owner).1, ⟨(Host.wantsMore h.owner).2, h.asked + 1⟩)
  frameTime h := Host.frameTime h.owner
  pause time h := { h with owner := Host.pause time h.owner }

theorem counted_asked : CountsQuestions (Counted.asked (H := H)) where
  keys _ := rfl
  render _ _ := rfl
  wantsMore _ := rfl
  pause _ _ := rfl

def Player.counted (player : Player H) : Player (Counted H) where
  view h := player.view h.owner
  grant n h := { h with owner := player.grant n h.owner }
  view_grant n h := player.view_grant n h.owner
  view_keys h := player.view_keys h.owner
  view_render p h := player.view_render p h.owner
  view_wantsMore h := player.view_wantsMore h.owner
  view_pause time h := player.view_pause time h.owner

def Replay.player : Player Replay where
  view r := r
  grant n r := { r with allowance := some n }
  view_grant _ _ := rfl
  view_keys _ := rfl
  view_render _ _ := rfl
  view_wantsMore _ := rfl
  view_pause _ _ := rfl

end Counting

/-- 6A07 00EE, one step a frame: the second frame of three fails, after one picture and two
questions. -/
theorem runs_compose_of_ret :
    let m := (Machine.idle { speed := 60 } (⟨0, 1⟩ : Counter)).loaded [0x6A, 0x07, 0x00, 0xEE]
    let player := Replay.player.counted
    let host : Counted Replay := ⟨⟨fun _ => .released, fun _ => 0, #[], none⟩, 0⟩
    let whole := Console.run .throttled ⟨m, player.grant (1 + 2) host⟩
    whole.result = .error (.raised ⟨0x202, .stackUnderflow⟩) ∧
    (player.pictures whole.state.host).size = 1 ∧ whole.state.host.asked = 2 := by
  intro m player host
  -- left as a definition, the run would be computed when it is compared
  dsimp only
  have hset : m.nextWord.Spells (.setByte 0xA 7) := by
    rw [Machine.nextWord_loaded _ rfl rfl]
    exact ⟨rfl, rfl, rfl⟩
  have hret : (m.memory.wordAt (m.pc + 2)).Spells .ret := by
    rw [show m.memory.wordAt (m.pc + 2) = _ from
      Machine.wordAt_loaded (k := 2) _ (by decide) rfl rfl]
    rfl
  have hpc : m.pc + 2 + 2 ≤ Memory.size := show 0x200 + 2 + 2 ≤ 0x1000 by decide
  obtain ⟨hfirst, hsecond⟩ :=
    ticked_of_set_ret (m := m) (inBounds_loaded _ _) rfl (by decide) hpc hset hret rfl host
  have hpcAfter : m.pc + 2 = 0x202 := rfl
  rw [hpcAfter] at hsecond
  obtain ⟨-, -, hfails, -⟩ := runs_compose player m host (n := 1) (k := 2) (by decide)
    .throttled .throttled .throttled
  obtain ⟨hresult, hpictures, hasked⟩ := hfails 1 (by decide) hfirst _ hsecond
  exact ⟨hresult, hpictures, hasked _ counted_asked⟩

end Chip8
