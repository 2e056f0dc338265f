/-
# `Chip8.Proofs.Halting` — halted for good

A fault ends a program.  Every way of driving a machine meets one that is halted
with a guard of its own, each at another place:

    step, frame    answer with the fault before anything moves
    refresh        answers with nothing to show, before it sets the keys
    tick           sets the keys, and then its frame answers with the fault
    run            asks the host first; a host that wants a frame gets a tick

Such a machine is `Inert`.  No request but a load makes it anything else: the
keys and the mark of a new picture are all that may change
(`frozen_until_load`).
-/
import Chip8.Host.Terminal
import Chip8.Proofs.FrameLoop

namespace Chip8

/-! ## Meeting a halted machine -/

/-- Nothing gets this machine to move: every way of driving it ends with `fault`, and
no host is shown a picture. -/
structure Machine.Inert {R : Type} [RandomSource R] (fault : Fault) (m : Machine R) : Prop where
  step : m.step = .raise fault m
  frame : m.frame = .raise fault m
  refresh : ∀ keys, Window.refresh keys m = .done none m
  tick : ∀ {H : Type} [Host H] (host : H), Console.tick ⟨m, host⟩ =
    .raise fault ⟨m.setKeys (Host.keys host).1, (Host.keys host).2⟩
  run : ∀ {H : Type} [Host H] (pace : Pace) (host : H),
    let asked := (Host.wantsMore host).2
    Console.run pace ⟨m, host⟩ =
      if (Host.wantsMore host).1 then
        .raise fault ⟨m.setKeys (Host.keys asked).1, (Host.keys asked).2⟩
      else ⟨.ok 0, ⟨m, asked⟩, #[.finished 0]⟩
  unseen : ∀ {H : Type} [Host H] (pace : Pace) (album : Album H),
    (Console.tick ⟨m, album⟩).state.host.pictures = album.pictures ∧
    (Console.run pace ⟨m, album⟩).state.host.pictures = album.pictures

section Meeting
variable {R H : Type} [RandomSource R] [Host H] {m : Machine R} {fault : Fault}

theorem refresh_of_halted (hm : m.status = .halted fault) (keys : Keypad) :
    Window.refresh keys m = .done none m :=
  if_pos (Machine.isHalted_iff.mpr ⟨fault, hm⟩)

theorem tick_of_halted (hm : m.status = .halted fault) (host : H) :
    Console.tick ⟨m, host⟩ =
      .raise fault ⟨m.setKeys (Host.keys host).1, (Host.keys host).2⟩ := by
  have hframe := Machine.frame_of_halted (m := m.setKeys (Host.keys host).1) hm
  simp only [Console.tick, hframe]
  rfl

theorem run_of_halted (hm : m.status = .halted fault) (pace : Pace) (host : H) :
    let asked := (Host.wantsMore host).2
    Console.run pace ⟨m, host⟩ =
      if (Host.wantsMore host).1 then
        .raise fault ⟨m.setKeys (Host.keys asked).1, (Host.keys asked).2⟩
      else ⟨.ok 0, ⟨m, asked⟩, #[.finished 0]⟩ := by
  intro asked
  unfold Console.run
  cases hmore : (Host.wantsMore host).1 with
  | false => exact Console.runFrom_of_enough rfl hmore pace maxFrames 0
  | true =>
      have htick := tick_of_halted hm asked
      rw [Console.runFrom_of_fault rfl hmore (congrArg Outcome.result htick)]
      show Outcome.mk _ (Console.tick ⟨m, asked⟩).state (#[] ++ (Console.tick ⟨m, asked⟩).log) = _
      rw [htick]
      rfl

theorem unseen_of_halted (hm : m.status = .halted fault) (pace : Pace) (album : Album H) :
    (Console.tick ⟨m, album⟩).state.host.pictures = album.pictures ∧
    (Console.run pace ⟨m, album⟩).state.host.pictures = album.pictures := by
  constructor
  · rw [tick_of_halted hm]
    rfl
  · rw [run_of_halted hm]
    split <;> rfl

theorem inert_of_halted (hm : m.status = .halted fault) : m.Inert fault where
  step := Machine.step_of_halted hm
  frame := Machine.frame_of_halted hm
  refresh := refresh_of_halted hm
  tick := tick_of_halted hm
  run := run_of_halted hm
  unseen := unseen_of_halted hm

end Meeting

/-! ## What is kept -/

section Keeping
variable {R H : Type} [RandomSource R] [Host H] {m : Machine R} {fault : Fault}

/-- But for the keys and the mark of a new picture, everything stays. -/
theorem frozen_kept (hm : m.status = .halted fault) :
    Kept fun m' => ∃ keys ready, m' = { m with keys := keys, frameReady := ready } where
  setKeys := by
    rintro _ ⟨keys, ready, rfl⟩ keys'
    exact ⟨keys', ready, rfl⟩
  takeFrame := by
    rintro _ ⟨keys, ready, rfl⟩
    exact ⟨keys, false, rfl⟩
  countDown := by
    -- the frames of a halted machine do not even begin
    rintro _ ⟨keys, ready, rfl⟩ hrun
    have hhalted : m.isHalted = true := Machine.isHalted_iff.mpr ⟨fault, hm⟩
    exact absurd hhalted (Bool.eq_false_iff.mp hrun)
  step := by
    rintro m' ⟨keys, ready, hm'⟩
    have hhalted : m'.status = .halted fault := hm' ▸ hm
    rw [Machine.step_of_halted hhalted]
    exact ⟨keys, ready, hm'⟩

/-- Only a machine without a program is idle. -/
theorem not_idle_kept : Kept fun m : Machine R => m.status ≠ .idle where
  setKeys hm _ := hm
  takeFrame hm := hm
  countDown hm _ := hm
  step := by
    intro m hm
    rcases m.step_status with hsame | ⟨fault, hhalted⟩
    · exact hsame ▸ hm
    · simp [hhalted]

theorem loads_status {r : Request H} (hr : r.Loads) (m : Machine R) :
    (r.perform m).state.status = .running := by
  cases r with
  | run pace host => exact absurd hr id
  | call c =>
      cases c with
      | load rom => exact congrArg Machine.status (perform_load_of_le (H := H) m hr)
      | _ => exact absurd hr id

/-- A halted machine stays as it is, but for its keys and the mark of a new picture,
and answers with its fault, until a load that fits lets it run again.  Nothing
makes a machine idle. -/
theorem frozen_until_load (hm : m.status = .halted fault) :
    (∀ requests : List (Request H), (∀ r ∈ requests, ¬r.Loads) →
      (∃ keys ready, afterRequests requests m = { m with keys := keys, frameReady := ready }) ∧
      (afterRequests requests m).Inert fault) ∧
    (∀ r : Request H,
      (r.perform m).state.status = if r.Loads then .running else .halted fault) ∧
    ∀ (r : Request H) (m' : Machine R), m'.status ≠ .idle → (r.perform m').state.status ≠ .idle := by
  refine ⟨?_, ?_, ?_⟩
  · intro requests hrequests
    obtain ⟨keys, ready, hfinal⟩ :=
      (frozen_kept hm).afterRequests hrequests ⟨m.keys, m.frameReady, rfl⟩
    have hhalted : (afterRequests requests m).status = .halted fault := hfinal ▸ hm
    exact ⟨⟨keys, ready, hfinal⟩, inert_of_halted hhalted⟩
  · intro r
    by_cases hr : r.Loads
    · rw [if_pos hr]
      exact loads_status hr m
    · obtain ⟨keys, ready, hnext⟩ :=
        (frozen_kept hm).request ⟨m.keys, m.frameReady, rfl⟩ r fun h => absurd h hr
      rw [if_neg hr, hnext]
      exact hm
  · intro r m' hm'
    refine not_idle_kept.request hm' r ?_
    intro hr
    simp [loads_status hr m']

/-- A jump to the last byte of memory, where no instruction can be. -/
theorem halted_of_jump {m : Machine R} (hm : m.InBounds) (hrun : m.status = .running)
    (hpc : m.pc + 2 ≤ Memory.size) (hword : m.nextWord.Spells (.jump 0xFFF)) :
    m.step.state.step.state.status = .halted ⟨0xFFF, .outOfBounds 0x1000⟩ := by
  have hjump := Machine.step_of_effect hm hrun hpc hword rfl
  have hlast : m.step.state.pc = 0xFFF := by
    rw [hjump]
    rfl
  have hrun' : m.step.state.status = .running := by
    rw [hjump]
    exact hrun
  rw [Machine.step_of_lt hm.step hrun' (by rw [hlast]; decide), hlast]
  rfl

/-- 1FFF, and then whatever is asked of the machine. -/
theorem frozen_until_load_of_jump :
    let m := ((Machine.idle {} (⟨0, 1⟩ : Counter)).loaded [0x1F, 0xFF]).step.state.step.state
    let fault : Fault := ⟨0xFFF, .outOfBounds 0x1000⟩
    let requests : List (Request Terminal) := [.call (.setKey 5 true), .call (.refresh .released),
      .run .throttled (.ofFrames 3 .blank), .call (.load (.replicate 3585 0)), .call .takeFrame]
    m.status = .halted fault ∧
    (afterRequests requests m).step = .raise fault (afterRequests requests m) ∧
    ((Request.call (.load [0x1F, 0xFF]) : Request Terminal).perform m).state.status = .running := by
  let start := (Machine.idle {} (⟨0, 1⟩ : Counter)).loaded [0x1F, 0xFF]
  have hword : start.nextWord.Spells (.jump 0xFFF) := by
    rw [Machine.nextWord_loaded _ rfl rfl]
    exact ⟨rfl, rfl⟩
  have hlong : ¬(Call.load (.replicate 3585 0) : Call Terminal).Loads := by
    show ¬(List.replicate 3585 (0 : UInt8)).length ≤ Memory.programRoom
    rw [List.length_replicate]
    decide
  have hhalted := halted_of_jump (inBounds_loaded _ _) rfl (show 0x200 + 2 ≤ 0x1000 by decide) hword
  obtain ⟨hfrozen, hnext, -⟩ := frozen_until_load (H := Terminal) hhalted
  -- left as definitions, the machines would be computed when the two are compared
  dsimp only
  refine ⟨hhalted, (hfrozen _ ?_).2.step, hnext _⟩
  simp only [List.forall_mem_cons]
  exact ⟨id, id, id, hlong, id, fun _ h => absurd h List.not_mem_nil⟩

end Keeping

end Chip8
