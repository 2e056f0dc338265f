/-
# `Chip8.Proofs.KeyWait` — waiting for a key

FX0A waits by going back to itself.  While no key is held its step comes to its end and
leaves the machine exactly as it was, so a whole batch does, whatever its size, and of a
frame only the counting of the timers is left:

    no key held      a step does nothing; after n frames both timers are n lower
    some key held    a step sets VX to the lowest key, and moves past the word

The word may be the last in memory: the program counter is then at the end of memory for a
moment, and goes back before anything is read there.
-/
import Chip8.Proofs.Timers

namespace Chip8

/-! ## The lowest key -/

namespace Keypad

variable {keys : Keypad}

theorem lowest?_eq_none_iff : keys.lowest? = none ↔ ∀ key < 16, keys.isHeld key = false := by
  rw [lowest?, List.find?_eq_none]
  simp

theorem lowest?_eq_some_iff {key : Nat} :
    keys.lowest? = some key ↔
      keys.isHeld key = true ∧ key < 16 ∧ ∀ k < key, keys.isHeld k = false := by
  rw [lowest?, List.find?_range_eq_some]
  simp

theorem exists_lowest (h : ∃ key < 16, keys.isHeld key = true) : ∃ key, keys.lowest? = some key := by
  obtain ⟨key, hlt, hheld⟩ := h
  apply Option.ne_none_iff_exists'.mp
  intro hnone
  rw [lowest?_eq_none_iff.mp hnone key hlt] at hheld
  cases hheld

end Keypad

/-! ## Steps -/

namespace Machine

variable {R : Type}

/-- The next step of the machine is the FX0A that waits for the key of VX. -/
structure AwaitsKey (m : Machine R) (x : Fin 16) : Prop where
  running : m.status = .running
  pc_le : m.pc + 2 ≤ Memory.size
  word : m.nextWord.Spells (.awaitKey x)

namespace AwaitsKey

variable {m : Machine R} {x : Fin 16} (h : m.AwaitsKey x)
include h

/-- To wait, only memory, program counter and status matter. -/
theorem countedDown (n : Nat) : (m.countedDown n).AwaitsKey x := ⟨h.running, h.pc_le, h.word⟩

theorem countDown : m.countDown.AwaitsKey x := ⟨h.running, h.pc_le, h.word⟩

theorem setKeys (keys : Keypad) : (m.setKeys keys).AwaitsKey x := ⟨h.running, h.pc_le, h.word⟩

variable [RandomSource R]

theorem step_of_released (hkeys : m.keys.lowest? = none) :
    m.step.result = .ok () ∧ m.step.state = m := by
  have hback : m.past.awaitKey x = .done () m := by
    rw [awaitKey, show m.past.keys.lowest? = none from hkeys]
    exact if_pos (Nat.le_add_left 2 m.pc)
  rw [step_of_le h.running h.pc_le, executeWord_of_spells h.word]
  simp only [execute, hback]
  exact ⟨rfl, rfl⟩

theorem step_of_held {key : Nat} (hkey : m.keys.lowest? = some key) :
    m.step.result = .ok () ∧ m.step.state = m.past.setV x (.ofNat key) := by
  have hset : m.past.awaitKey x = .done () (m.past.setV x (.ofNat key)) := by
    rw [awaitKey, show m.past.keys.lowest? = some key from hkey]
  rw [step_of_le h.running h.pc_le, executeWord_of_spells h.word]
  simp only [execute, hset]
  exact ⟨rfl, rfl⟩

/-! ## Frames -/

/-- With no key held a frame is no more than the counting before it. -/
theorem frame_of_released (hkeys : m.keys.lowest? = none) :
    m.frame.result = .ok () ∧ m.frame.state = m.countDown := by
  obtain ⟨hok, hsame⟩ := h.countDown.step_of_released hkeys
  rw [frame_of_not_halted (isHalted_of_running h.running)]
  exact Outcome.repeated_fixed step hok hsame _

/-- With no key held any number of frames are no more than counting down as often. -/
theorem frames_of_released (hkeys : m.keys.lowest? = none) (n : Nat) :
    (m.frames n).result = .ok () ∧ (m.frames n).state = m.countedDown n := by
  induction n with
  | zero => exact ⟨rfl, (m.countedDown_zero).symm⟩
  | succ n ih =>
      obtain ⟨hok, hstate⟩ := ih
      obtain ⟨hresult, hnext⟩ := frames_succ_of_ok hok
      obtain ⟨hframe, hcounted⟩ := (h.countedDown n).frame_of_released hkeys
      rw [hresult, hnext, hstate]
      refine ⟨hframe, hcounted.trans ?_⟩
      rw [countDown_eq, countedDown_countedDown]

end AwaitsKey

/-- A frame of a machine that runs is its first step and then the rest of the batch. -/
theorem frame_eq_andThen [RandomSource R] {m : Machine R} (hm : m.isHalted = false) :
    m.frame = m.countDown.step.andThen fun _ s =>
      .repeated step (m.settings.perFrame - 1) (.done () s) := by
  obtain ⟨p, hp⟩ : ∃ p, m.settings.perFrame = p + 1 :=
    Nat.exists_eq_add_one.mpr (Nat.le_max_right _ 1)
  rw [frame_of_not_halted hm, hp, Outcome.repeated_done_succ, Nat.add_sub_cancel]

end Machine

/-! ## Until a key is held -/

variable {R : Type} [RandomSource R]

/-- A machine at an FX0A with no key held goes through any number of frames and changes in
nothing but its timers.  Once keys are held its next step, by itself or as the first of a
frame, takes the lowest of them and changes nothing else. -/
theorem waits_until_key_held {m : Machine R} (hrun : m.status = .running) {w : Word}
    (hw : m.memory.word m.pc = .ok w) {x : Fin 16} (hword : w.Spells (.awaitKey x))
    (hkeys : ∀ key < 16, m.keys.isHeld key = false) (n : Nat) :
    let waited := m.frames n
    waited.result = .ok () ∧
    waited.state = { m with
      delay := .ofNat (m.delay.toNat - n)
      sound := .ofNat (m.sound.toNat - n) } ∧
    ∀ keys : Keypad, (∃ key < 16, keys.isHeld key = true) →
      let pressed := waited.state.setKeys keys
      ∃ key < 16, keys.isHeld key = true ∧ (∀ k < key, keys.isHeld k = false) ∧
        (∀ s ∈ [pressed, pressed.countDown],
          s.step.result = .ok () ∧
          s.step.state = { s with pc := m.pc + 2, v := (s.setV x (.ofNat key)).v }) ∧
        pressed.frame = pressed.countDown.step.andThen fun _ s =>
          .repeated Machine.step (pressed.settings.perFrame - 1) (.done () s) := by
  intro waited
  obtain ⟨hpc, rfl⟩ := m.memory.word_eq_ok_iff.mp hw
  have hawaits : m.AwaitsKey x := ⟨hrun, hpc, hword⟩
  obtain ⟨hok, hstate⟩ := hawaits.frames_of_released (Keypad.lowest?_eq_none_iff.mpr hkeys) n
  refine ⟨hok, hstate, ?_⟩
  intro keys hheld pressed
  obtain ⟨key, hkey⟩ := Keypad.exists_lowest hheld
  obtain ⟨hthis, hlt, hlower⟩ := Keypad.lowest?_eq_some_iff.mp hkey
  have hpressed : pressed = (m.countedDown n).setKeys keys := congrArg (·.setKeys keys) hstate
  have hawaits' : pressed.AwaitsKey x := hpressed ▸ (hawaits.countedDown n).setKeys keys
  have hpc' : pressed.pc = m.pc := hpressed ▸ rfl
  have hstep : ∀ s : Machine R, s.AwaitsKey x → s.keys = keys → s.pc = m.pc →
      s.step.result = .ok () ∧
      s.step.state = { s with pc := m.pc + 2, v := (s.setV x (.ofNat key)).v } := by
    intro s hs hskeys hspc
    obtain ⟨hok, htaken⟩ := hs.step_of_held (hskeys ▸ hkey)
    rw [← hspc]
    exact ⟨hok, htaken⟩
  refine ⟨key, hlt, hthis, hlower, ?_, ?_⟩
  · rw [List.forall_mem_cons, List.forall_mem_singleton]
    exact ⟨hstep pressed hawaits' rfl hpc', hstep pressed.countDown hawaits'.countDown rfl hpc'⟩
  · exact Machine.frame_eq_andThen (Machine.isHalted_of_running hawaits'.running)

/-- F50A as the last word of memory, with keys A and B held after three frames. -/
theorem waits_until_key_held_of_last :
    let loaded := (Machine.idle {} (⟨0, 1⟩ : Counter)).loaded []
    let m := { loaded with
      memory := loaded.memory.patch 0xFFE [0xF5, 0x0A], pc := 0xFFE, delay := 2, sound := 9 }
    let pressed := (m.frames 3).state.setKeys (.ofMask 0x0C00)
    (m.frames 3).result = .ok () ∧ pressed.pc = 0xFFE ∧ pressed.delay = 0 ∧ pressed.sound = 6 ∧
      pressed.step.state.pc = 0x1000 ∧ pressed.step.state.v.get 5 = 0xA := by
  intro loaded m pressed
  have hpc : m.pc + 2 ≤ Memory.size := show 0xFFE + 2 ≤ 0x1000 by decide
  have hword : m.nextWord.Spells (.awaitKey 5) := by
    rw [show m.nextWord = .ofBytes 0xF5 0x0A from loaded.memory.wordAt_patch (by decide) _ _]
    exact ⟨rfl, rfl, rfl⟩
  obtain ⟨hok, hstate, hpressed⟩ :=
    waits_until_key_held (m := m) rfl (m.memory.word_of_le hpc) hword (by decide) 3
  obtain ⟨key, -, hheld, hlower, hsteps, -⟩ :=
    hpressed (.ofMask 0x0C00) ⟨0xA, by decide, by decide⟩
  obtain ⟨-, hstep⟩ := hsteps pressed List.mem_cons_self
  have hkey : key = 0xA := by
    have hbelow : ∀ k < 0xA, (Keypad.ofMask 0x0C00).isHeld k = false := by decide
    refine Nat.le_antisymm (Nat.le_of_not_lt ?_) (Nat.le_of_not_lt ?_)
    · intro hgt
      exact absurd (hlower 0xA hgt) (by decide)
    · intro hlt
      rw [hbelow key hlt] at hheld
      cases hheld
  have hleft : pressed = { m with delay := 0, sound := 6, keys := .ofMask 0x0C00 } := by
    rw [show pressed = (m.frames 3).state.setKeys _ from rfl, hstate]
    rfl
  refine ⟨hok, ?_, ?_, ?_, ?_, ?_⟩
  · rw [hleft]
  · rw [hleft]
  · rw [hleft]
  · rw [hstep]
  · rw [hstep, hkey]
    exact pressed.get_setV 5 _

end Chip8
