/-
# `Chip8.Proofs.FrontEnds` — a console and a window do the same

There are two ways to have a machine run by the frame.  A console asks its host for
the keys and shows it a picture, a window hands over the keys and is told what to
show.  Frame by frame they come to the same (`SameFrame`):

    the frame          the console                   the window
    is completed       renders one picture           is told to show its screen,
                                                     if the picture has changed
    ends in a fault    fails and renders nothing     is told nothing

and both leave the same machine.  Only after a fault do they go apart, and only in
the keys: a console still passes them on, a window does not (`front_ends_agree`).

Of the pixels of a window no more is asked than that 0 and 1 have one each, and not
the same.
-/
import Chip8.Proofs.FrameLoop

namespace Chip8

/-! ## The picture in the window -/

namespace Window

variable {P : Type} {lit dark : P}

/-- A picture of the window has its lit and dark pixels where the screen has them. -/
def Display.Shows (lit dark : P) (d : Display P) (s : Screen) : Prop :=
  ∀ (x : Fin 64) (y : Fin 32),
    ((d.get y).get x = lit ↔ s.pixel x y = true) ∧ ((d.get y).get x = dark ↔ s.pixel x y = false)

variable [Pixel P]

theorem get_display (s : Screen) (x : Fin 64) (y : Fin 32) :
    ((display P s).get y).get x =
      (Pixel.ofByte? (if s.pixel x y then 1 else 0)).getD Pixel.fallback := by
  show ((display P s)[y.val])[x.val] = _
  simp only [display, Vector.getElem_ofFn]

theorem display_shows (hdark : Pixel.ofByte? 0 = some dark) (hlit : Pixel.ofByte? 1 = some lit)
    (hne : lit ≠ dark) (s : Screen) : Display.Shows lit dark (display P s) s := by
  intro x y
  rw [get_display]
  cases s.pixel x y with
  | true => simp [hlit, hne]
  | false => simp [hdark, hne.symm]

/-! ## One frame of the window -/

variable {R : Type} [RandomSource R] {keys : Keypad} {m : Machine R}

theorem redraw_state (P : Type) [Pixel P] (keys : Keypad) (m : Machine R) :
    (redraw P keys m).state = (refresh keys m).state := by
  unfold redraw Outcome.andThen
  split <;> rfl

theorem redraw_of_ok (hm : m.isHalted = false) (h : (m.setKeys keys).frame.result = .ok ()) :
    (redraw P keys m).result = .ok
      (if (m.setKeys keys).frame.state.frameReady then
        some (display P (m.setKeys keys).frame.state.screen)
      else none) := by
  simp only [redraw, refresh, hm, h]
  cases hready : (m.setKeys keys).frame.state.frameReady <;>
    simp [Outcome.andThen, Machine.takeFrame, hready]

theorem redraw_of_fault (hm : m.isHalted = false) {fault : Fault}
    (h : (m.setKeys keys).frame.result = .error (.raised fault)) :
    (redraw P keys m).result = .ok none := by
  simp only [redraw, refresh, hm, h]
  rfl

theorem redraw_of_overflow (hm : m.isHalted = false)
    (h : (m.setKeys keys).frame.result = .error .overflow) :
    (redraw P keys m).result = .error .overflow := by
  simp only [redraw, refresh, hm, h]
  rfl

end Window

/-! ## One frame of both -/

section Frames
variable {R H P : Type} [RandomSource R] [Host H] [Window.Pixel P] {lit dark : P}

/-- What a console's tick and a window's redrawing have in common: the machine that is
left, and either one picture of which the window is told what is new, or none and
nothing, or neither comes to an end. -/
structure SameFrame (lit dark : P) (keys : Keypad) (c : Console R (Album H)) (m : Machine R) :
    Prop where
  state : c.tick.state.machine = (Window.redraw P keys m).state
  completed : c.tick.result = .ok () → ∃ (picture : Picture) (shown? : Option (Window.Display P)),
    c.tick.state.host.pictures = c.host.pictures ++ [picture] ∧
    (Window.redraw P keys m).result = .ok shown? ∧
    shown?.isSome = picture.changed ∧
    (∀ d, shown? = some d → d.Shows lit dark picture.screen) ∧
    Window.buzzer (Window.redraw P keys m).state = picture.soundOn
  faulted : ∀ fault, c.tick.result = .error (.raised fault) →
    c.tick.state.host.pictures = c.host.pictures ∧
    (Window.redraw P keys m).result = .ok none ∧
    (Window.redraw P keys m).state.status = .halted fault
  overflowed : c.tick.result = .error .overflow →
    c.tick.state.host.pictures = c.host.pictures ∧
    (Window.redraw P keys m).result = .error .overflow

theorem redraw_eq_serve {m : Machine R} (hm : m.isHalted = false) (P : Type) [Window.Pixel P]
    (keys : Keypad) : (Window.redraw P keys m).state = m.serve keys := by
  rw [Window.redraw_state, Machine.refresh_state, if_neg (Bool.eq_false_iff.mp hm)]

section Once
variable {m : Machine R} (hm : m.isHalted = false) (album : Album H)
include hm

theorem tick_eq_redraw (P : Type) [Window.Pixel P] : (Console.tick ⟨m, album⟩).state.machine =
    (Window.redraw P (Host.keys album).1 m).state := by
  rw [Machine.tick_machine, redraw_eq_serve hm]

theorem sameFrame_of_ok (hr : (m.setKeys (Host.keys album).1).frame.result = .ok ())
    (hdark : Window.Pixel.ofByte? 0 = some dark) (hlit : Window.Pixel.ofByte? 1 = some lit)
    (hne : lit ≠ dark) : SameFrame lit dark (Host.keys album).1 ⟨m, album⟩ m := by
  have hstate := tick_eq_redraw hm album P
  have htick := Console.tick_of_ok hr
  have hredraw := Window.redraw_of_ok (P := P) hm hr
  have hbuzzer : (Window.redraw P (Host.keys album).1 m).state.soundOn =
      (m.setKeys (Host.keys album).1).frame.state.soundOn := by
    rw [← hstate, htick]
    rfl
  dsimp only at htick
  -- from here on only the machine after the frame matters, not how it came about
  generalize (m.setKeys (Host.keys album).1).frame.state = served at htick hredraw hbuzzer
  refine ⟨hstate, fun _ => ?_, fun _ h => ?_, fun h => ?_⟩
  · refine ⟨⟨served.screen, served.frameReady, served.soundOn⟩, _, ?_, hredraw, ?_, ?_, hbuzzer⟩
    · rw [htick]
      rfl
    · cases served.frameReady <;> rfl
    · intro d hd
      cases hready : served.frameReady with
      | false => simp [hready] at hd
      | true =>
          simp only [hready, if_true, Option.some.injEq] at hd
          exact hd ▸ Window.display_shows hdark hlit hne _
  · rw [htick] at h
    cases h
  · rw [htick] at h
    cases h

theorem sameFrame_of_error {e : Stop Fault}
    (hr : (m.setKeys (Host.keys album).1).frame.result = .error e) (lit dark : P) :
    SameFrame lit dark (Host.keys album).1 ⟨m, album⟩ m := by
  have hstate := tick_eq_redraw hm album P
  have htick := Console.tick_of_error hr
  have hunseen := congrArg (·.state.host.pictures) htick
  refine ⟨hstate, fun h => ?_, fun fault h => ?_, fun h => ?_⟩
  · rw [htick] at h
    cases h
  · rw [htick] at h
    cases h
    refine ⟨hunseen, Window.redraw_of_fault hm hr, ?_⟩
    rw [← hstate, htick]
    exact (Machine.frame_raised_iff _ fault).mp hr
  · rw [htick] at h
    cases h
    exact ⟨hunseen, Window.redraw_of_overflow hm hr⟩

theorem sameFrame_of_not_halted (hdark : Window.Pixel.ofByte? 0 = some dark)
    (hlit : Window.Pixel.ofByte? 1 = some lit) (hne : lit ≠ dark) :
    SameFrame lit dark (Host.keys album).1 ⟨m, album⟩ m := by
  cases hr : (m.setKeys (Host.keys album).1).frame.result with
  | ok _ => exact sameFrame_of_ok hm album hr hdark hlit hne
  | error e => exact sameFrame_of_error hm album hr lit dark

end Once

/-! ## Frame after frame -/

/-- A console after some ticks, whatever they answer. -/
def Console.ticked : Nat → Console R H → Console R H
  | 0, c => c
  | i + 1, c => (ticked i c).tick.state

def Window.redrawn (P : Type) [Pixel P] (keys : Nat → Keypad) : Nat → Machine R → Machine R
  | 0, m => m
  | i + 1, m => (redraw P (keys i) (redrawn P keys i m)).state

theorem tick_raised_iff (c : Console R H) (fault : Fault) :
    c.tick.result = .error (.raised fault) ↔ c.tick.state.machine.status = .halted fault := by
  obtain ⟨m, host⟩ := c
  have hframe := (m.setKeys (Host.keys host).1).frame_raised_iff fault
  cases hr : (m.setKeys (Host.keys host).1).frame.result with
  | ok _ =>
      rw [hr] at hframe
      rw [Console.tick_of_ok hr]
      constructor
      · intro h
        cases h
      · intro h
        cases hframe.mpr h
  | error e =>
      rw [Console.tick_of_error hr]
      rwa [hr] at hframe

/-- The machine of a console beside that of a window: the same until it is halted, and
from then on but for the keys. -/
inductive Beside (a b : Machine R) : Prop where
  | same (heq : a = b) (hrun : b.isHalted = false)
  | apart (hhalted : b.isHalted = true) (keys : Keypad) (heq : a = b.setKeys keys)

omit [RandomSource R] in
theorem Beside.of_eq {a b : Machine R} (h : a = b) : Beside a b := by
  cases hhalted : b.isHalted with
  | false => exact .same h hhalted
  | true => exact .apart hhalted b.keys h

theorem Beside.next {c : Console R H} {b : Machine R} (h : Beside c.machine b) :
    Beside c.tick.state.machine (Window.redraw P (Host.keys c.host).1 b).state := by
  obtain ⟨a, host⟩ := c
  rw [Machine.tick_machine]
  cases h with
  | same heq hrun =>
      cases heq
      exact .of_eq (redraw_eq_serve hrun P _).symm
  | apart hhalted keys heq =>
      obtain ⟨fault, hfault⟩ := Machine.isHalted_iff.mp hhalted
      have hstays : (b.setKeys keys).status = .halted fault := hfault
      -- the window leaves the machine as it is, the console passes the keys on
      rw [Window.redraw_state, Machine.refresh_state, if_pos hhalted]
      refine .apart hhalted (Host.keys host).1 ?_
      rw [show a = b.setKeys keys from heq, Machine.serve_of_halted hstays]
      rfl

theorem inBounds_ticked {c : Console R H} (hc : c.machine.InBounds) (i : Nat) :
    (Console.ticked i c).machine.InBounds := by
  induction i with
  | zero => exact hc
  | succ i ih =>
      rw [Console.ticked, Machine.tick_machine]
      exact inBounds_kept.serve ih _

/-- Driven with the same keys, a console and a window do the same in every frame up to the
first that fails, and at all times their machines are the same but for the keys.  Within
bounds a frame can fail by a fault only. -/
theorem front_ends_agree {m : Machine R} (hm : m.isHalted = false) {keys : Nat → Keypad}
    {album : Album H} {n : Nat}
    (hkeys : ∀ i < n, (Host.keys (Console.ticked i ⟨m, album⟩).host).1 = keys i)
    (hdark : Window.Pixel.ofByte? 0 = some dark) (hlit : Window.Pixel.ofByte? 1 = some lit)
    (hne : lit ≠ dark) :
    (∀ i < n, (∀ j < i, (Console.ticked j ⟨m, album⟩).tick.result = .ok ()) →
      (Console.ticked i ⟨m, album⟩).machine = Window.redrawn P keys i m ∧
      SameFrame lit dark (keys i) (Console.ticked i ⟨m, album⟩) (Window.redrawn P keys i m)) ∧
    (∀ i ≤ n, ∃ held,
      (Console.ticked i ⟨m, album⟩).machine = (Window.redrawn P keys i m).setKeys held) ∧
    (m.InBounds → ∀ i, (Console.ticked i ⟨m, album⟩).tick.result ≠ .error .overflow) := by
  have hbeside : ∀ i ≤ n,
      Beside (Console.ticked i ⟨m, album⟩).machine (Window.redrawn P keys i m) := by
    intro i hi
    induction i with
    | zero => exact .same rfl hm
    | succ i ih =>
        have hnext := (ih (Nat.le_of_succ_le hi)).next (P := P)
        rwa [hkeys i hi] at hnext
  refine ⟨?_, ?_, fun hin i => (inBounds_ticked hin i).tick_ne_overflow _⟩
  · intro i hi hok
    have hrun : (Console.ticked i ⟨m, album⟩).machine.isHalted = false := by
      rw [Bool.eq_false_iff, ne_eq, Machine.isHalted_iff]
      rintro ⟨fault, hfault⟩
      cases i with
      | zero => exact Bool.eq_false_iff.mp hm (Machine.isHalted_iff.mpr ⟨fault, hfault⟩)
      | succ j =>
          have hraised := (tick_raised_iff _ fault).mpr hfault
          rw [hok j (Nat.lt_succ_self j)] at hraised
          cases hraised
    cases hbeside i (Nat.le_of_lt hi) with
    | apart hhalted held heq =>
        rw [heq, Machine.isHalted_setKeys, hhalted] at hrun
        cases hrun
    | same heq hrun' =>
        refine ⟨heq, ?_⟩
        rw [← heq, ← hkeys i hi]
        exact sameFrame_of_not_halted hrun _ hdark hlit hne
  · intro i hi
    cases hbeside i hi with
    | same heq _ => exact ⟨(Window.redrawn P keys i m).keys, heq⟩
    | apart _ held heq => exact ⟨held, heq⟩

end Frames

/-! ## Hosts that play keys -/

/-- A host that holds keys by the number of times it was asked for them. -/
structure Script where
  keys : Nat → Keypad
  asked : Nat

instance scriptHost : Host Script where
  keys s := (s.keys s.asked, { s with asked := s.asked + 1 })
  render _ s := s
  wantsMore s := (true, s)
  frameTime _ := 0
  pause _ s := s

section Scripts
variable {R : Type} [RandomSource R]

theorem owner_tick (c : Console R (Album Script)) :
    c.tick.state.host.owner = { c.host.owner with asked := c.host.owner.asked + 1 } := by
  obtain ⟨m, album⟩ := c
  cases hr : (m.setKeys (Host.keys album).1).frame.result with
  | ok _ => rw [Console.tick_of_ok hr]; rfl
  | error e => rw [Console.tick_of_error hr]; rfl

/-- For any keys, frame after frame, there is a host that holds them. -/
theorem keys_ticked (keys : Nat → Keypad) (m : Machine R) (i : Nat) :
    (Host.keys (Console.ticked i ⟨m, (⟨⟨keys, 0⟩, []⟩ : Album Script)⟩).host).1 = keys i := by
  have howner :
      (Console.ticked i ⟨m, (⟨⟨keys, 0⟩, []⟩ : Album Script)⟩).host.owner = ⟨keys, i⟩ := by
    induction i with
    | zero => rfl
    | succ i ih => rw [Console.ticked, owner_tick, ih]
  show (Host.keys (Console.ticked i ⟨m, (⟨⟨keys, 0⟩, []⟩ : Album Script)⟩).host.owner).1 = keys i
  rw [howner]
  rfl

end Scripts

/-- Pixels of two kinds, one for 0 and one for 1. -/
inductive Dot where
  | dark
  | lit

instance dotPixel : Window.Pixel Dot where
  ofByte? b := if b = 0 then some .dark else if b = 1 then some .lit else none
  fallback := .dark

section OneStepFrames
variable {R H : Type} [RandomSource R] [Host H] {m : Machine R} (hm : m.InBounds)
  (hrun : m.status = .running) (hbatch : m.settings.perFrame = 1)
include hm hrun hbatch

theorem frame_of_set (hpc : m.pc + 2 ≤ Memory.size) {x : Fin 16} {nn : UInt8}
    (hset : m.nextWord.Spells (.setByte x nn)) (keys : Keypad) :
    (m.setKeys keys).frame = ⟨.ok (),
      (Instruction.setByte x nn).effect (m.setKeys keys).countDown.past,
      #[.fetched m.pc m.nextWord]⟩ := by
  have hrunning : (m.setKeys keys).isHalted = false := Machine.isHalted_of_running hrun
  have hin := inBounds_kept.countDown (inBounds_kept.setKeys hm keys) hrunning
  rw [Machine.frame_of_one hrunning hbatch]
  exact Machine.step_of_effect hin hrun hpc hset rfl

theorem tick_of_set (hpc : m.pc + 2 ≤ Memory.size) {x : Fin 16} {nn : UInt8}
    (hset : m.nextWord.Spells (.setByte x nn)) (host : H) :
    (Console.tick ⟨m, host⟩).result = .ok () := by
  have hframe := frame_of_set hm hrun hbatch hpc hset (Host.keys host).1
  rw [Console.tick_of_ok (congrArg Outcome.result hframe)]

theorem redraw_of_set (hpc : m.pc + 2 ≤ Memory.size) {x : Fin 16} {nn : UInt8}
    (hset : m.nextWord.Spells (.setByte x nn)) (hready : m.frameReady = true) (keys : Keypad)
    (P : Type) [Window.Pixel P] :
    (Window.redraw P keys m).result = .ok (some (Window.display P m.screen)) := by
  have hframe := frame_of_set hm hrun hbatch hpc hset keys
  rw [Window.redraw_of_ok (Machine.isHalted_of_running hrun) (congrArg Outcome.result hframe),
    hframe]
  exact congrArg Except.ok (if_pos hready)

theorem tick_of_ret (hpc : m.pc + 2 ≤ Memory.size) (hret : m.nextWord.Spells .ret)
    (hstack : m.stack = []) (host : H) :
    (Console.tick ⟨m, host⟩).result = .error (.raised ⟨m.pc, .stackUnderflow⟩) := by
  have hrunning : (m.setKeys (Host.keys host).1).isHalted = false :=
    Machine.isHalted_of_running hrun
  have hin := inBounds_kept.countDown (inBounds_kept.setKeys hm (Host.keys host).1) hrunning
  have hcause : Instruction.ret.cause? (m.setKeys (Host.keys host).1).countDown.past =
      some .stackUnderflow := if_pos hstack
  have hframe : (m.setKeys (Host.keys host).1).frame.result =
      .error (.raised ⟨m.pc, .stackUnderflow⟩) := by
    rw [Machine.frame_of_one hrunning hbatch, Machine.step_of_spells hin hrun hpc hret, hcause]
    rfl
  rw [Console.tick_of_error hframe]

/-- Two ticks of a single step: the first sets a register, the second returns to nowhere. -/
theorem ticked_of_set_ret (hpc : m.pc + 2 + 2 ≤ Memory.size) {x : Fin 16} {nn : UInt8}
    (hset : m.nextWord.Spells (.setByte x nn))
    (hret : (m.memory.wordAt (m.pc + 2)).Spells .ret) (hstack : m.stack = []) (host : H) :
    (∀ i < 1, (Console.ticked i ⟨m, host⟩).tick.result = .ok ()) ∧
      (Console.ticked 1 ⟨m, host⟩).tick.result =
        .error (.raised ⟨m.pc + 2, .stackUnderflow⟩) := by
  have hpc' : m.pc + 2 ≤ Memory.size := Nat.le_of_add_right_le hpc
  constructor
  · intro i hi
    cases Nat.lt_one_iff.mp hi
    exact tick_of_set hm hrun hbatch hpc' hset host
  · let held := (Host.keys host).1
    have hserve : m.serve held =
        ((Instruction.setByte x nn).effect (m.setKeys held).countDown.past).takeFrame.2 := by
      rw [Machine.serve, frame_of_set hm hrun hbatch hpc' hset]
    have hin := inBounds_kept.serve hm held
    have hnext := (Machine.tick_machine m host).trans hserve
    rw [hserve] at hin
    show (Console.tick ⟨(Console.tick ⟨m, host⟩).state.machine, _⟩).result = _
    rw [hnext]
    exact tick_of_ret hin hrun hbatch hpc hret hstack _

end OneStepFrames

/-- 6A07 00EE, one step a frame: the first frame shows the dark screen of a program just
loaded, the second ends in a fault and shows nothing, and then one more is asked for. -/
theorem front_ends_agree_of_ret :
    let m := (Machine.idle { speed := 60 } (⟨0, 1⟩ : Counter)).loaded [0x6A, 0x07, 0x00, 0xEE]
    let keys : Nat → Keypad := fun i => .ofMask (i + 1)
    let c : Console Counter (Album Script) := ⟨m, ⟨⟨keys, 0⟩, []⟩⟩
    (∃ picture display, c.tick.state.host.pictures = [picture] ∧ picture.changed = true ∧
      (Window.redraw Dot (keys 0) m).result = .ok (some display) ∧
      display.Shows Dot.lit Dot.dark picture.screen) ∧
    (Console.ticked 1 c).tick.result = .error (.raised ⟨0x202, .stackUnderflow⟩) ∧
    (Console.ticked 1 c).tick.state.host.pictures = (Console.ticked 1 c).host.pictures ∧
    (Window.redraw Dot (keys 1) (Window.redrawn Dot keys 1 m)).result = .ok none ∧
    SameFrame Dot.lit Dot.dark (keys 1) (Console.ticked 1 c) (Window.redrawn Dot keys 1 m) ∧
    ∃ held, (Console.ticked 3 c).machine = (Window.redrawn Dot keys 3 m).setKeys held := by
  intro m keys c
  have hin : m.InBounds := inBounds_loaded _ _
  have hrun : m.status = .running := rfl
  have hbatch : m.settings.perFrame = 1 := by decide
  have hpc : m.pc = 0x200 := rfl
  have hready : m.frameReady = true := rfl
  have hstack : m.stack = [] := rfl
  have hset : m.nextWord.Spells (.setByte 0xA 7) :=
    Machine.spells_loaded (k := 0) _ (by decide) rfl rfl ⟨rfl, rfl, rfl⟩
  have hret : (m.memory.wordAt (m.pc + 2)).Spells .ret :=
    Machine.spells_loaded (k := 2) _ (by decide) rfl rfl rfl
  have hfits : m.pc + 2 + 2 ≤ Memory.size := by
    rw [hpc]
    decide
  have hkeys : ∀ i < 3, (Host.keys (Console.ticked i c).host).1 = keys i :=
    fun i _ => keys_ticked keys m i
  have hdark : Window.Pixel.ofByte? 0 = some Dot.dark := rfl
  have hlit : Window.Pixel.ofByte? 1 = some Dot.lit := rfl
  have hne : Dot.lit ≠ Dot.dark := by intro h; cases h
  obtain ⟨hok, hfails⟩ := ticked_of_set_ret hin hrun hbatch hfits hset hret hstack c.host
  rw [hpc] at hfails
  obtain ⟨hframe, hlater, -⟩ :=
    front_ends_agree (Machine.isHalted_of_running hrun) hkeys hdark hlit hne
  have hfirst := (hframe 0 (by decide) fun j hj => absurd hj (Nat.not_lt_zero j)).2
  have hsecond := (hframe 1 (by decide) hok).2
  have hshows := redraw_of_set hin hrun hbatch (Nat.le_of_add_right_le hfits) hset hready
    (keys 0) Dot
  obtain ⟨picture, shown?, hpicture, hredraw, hchanged, hdisplay, -⟩ :=
    hfirst.completed (hok 0 (by decide))
  obtain rfl : some _ = shown? := Except.ok.inj (hshows.symm.trans hredraw)
  obtain ⟨hunseen, hnothing, -⟩ := hsecond.faulted _ hfails
  exact ⟨⟨picture, _, hpicture, hchanged.symm, hshows, hdisplay _ rfl⟩, hfails, hunseen, hnothing,
    hsecond, hlater 3 (by decide)⟩

end Chip8
