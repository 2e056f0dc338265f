/-
# `Chip8.Proofs.NewPicture` — whether there is anything new to see

A machine keeps a mark that its screen is new.  Loads leave it, 00E0 and DXYN leave it,
and only taking the frame removes it.  A window and a console take the frame when it is
completed; after a fault the mark stays, for whoever asks next.

                         the mark      the screen
    load                 set           dark
    00E0, DXYN           set           drawn on
    all else that runs   as it was     as it was
    a take               cleared       as it was

So a take answers whether anything was drawn since the take before it, and if not, the
screen is the one that was there then (`take_tells`).
-/
import Chip8.Host.Terminal
import Chip8.Proofs.FrameLoop
import Chip8.Proofs.ScreenHistory

namespace Chip8

/-! ## The mark -/

/-- Whether it leaves the mark of a new picture. -/
def Instruction.repaints : Instruction → Bool
  | .clear | .draw _ _ _ => true
  | _ => false

section Mark
variable {R : Type} {m : Machine R} {seen : Screen}

/-- There is the mark of a new picture, or else the screen is still this one. -/
def Machine.Marked (seen : Screen) (m : Machine R) : Prop :=
  m.frameReady = false → m.screen = seen

theorem foldl_or_eq_false {α : Type} {p : α → Bool} {b : Bool} {l : List α}
    (h : l.foldl (fun b a => b || p a) b = false) : b = false ∧ ∀ a ∈ l, p a = false := by
  induction l generalizing b with
  | nil => exact ⟨h, fun a ha => absurd ha List.not_mem_nil⟩
  | cons a l ih =>
      obtain ⟨hb, hrest⟩ := ih h
      obtain ⟨hb, ha⟩ := Bool.or_eq_false_iff.mp hb
      exact ⟨hb, List.forall_mem_cons.mpr ⟨ha, hrest⟩⟩

theorem foldl_drawn_of_not_repaints (s : Screen) {executions : List (Execution R)}
    (h : ∀ e ∈ executions, e.instruction.repaints = false) :
    executions.foldl Screen.drawn s = s := by
  refine foldl_drawn_of_other s fun e he => ⟨?_, ?_⟩
  · intro hclear
    simpa [hclear, Instruction.repaints] using h e he
  · intro x y n hdraw
    simpa [hdraw, Instruction.repaints] using h e he

/-- Executions that leave no mark leave the screen alone. -/
theorem marked_of_executed {m' : Machine R} {executions : List (Execution R)}
    (hmark : m'.frameReady = executions.foldl (fun b e => b || e.instruction.repaints) m.frameReady)
    (hscreen : m'.screen = executions.foldl Screen.drawn m.screen) (hm : m.Marked seen) :
    m'.Marked seen := by
  intro hunmarked
  obtain ⟨hbefore, hnone⟩ := foldl_or_eq_false (hmark ▸ hunmarked)
  rw [hscreen, foldl_drawn_of_not_repaints _ hnone]
  exact hm hbefore

variable [RandomSource R]

theorem frameReady_effect (m : Machine R) (i : Instruction) :
    (i.effect m.past).frameReady = (m.frameReady || i.repaints) := by
  cases i with
  | clear | draw _ _ _ => exact (Bool.or_true _).symm
  | ret | call _ | storeDecimal _ | storeRegisters _ => exact (Bool.or_false _).symm
  | _ =>
      rw [Instruction.effect_onRegisters]
      · exact (Bool.or_false _).symm
      · trivial

/-- In steps and frames the mark stays once it is there. -/
theorem mark_follows :
    FollowsSteps (Machine.frameReady (R := R)) fun b e => b || e.instruction.repaints where
  countDown _ := rfl
  halt _ _ := rfl
  past _ := rfl
  spoil _ i := by cases i <;> rfl
  effect m i _ _ := frameReady_effect m i

theorem Machine.marked_step (hm : m.InBounds) (hmarked : m.Marked seen) :
    m.step.state.Marked seen :=
  marked_of_executed (mark_follows.step hm) (screen_follows.step hm) hmarked

theorem Machine.marked_frame (hm : m.InBounds) (hmarked : m.Marked seen) :
    m.frame.state.Marked seen :=
  marked_of_executed (mark_follows.frame hm) (screen_follows.inSteps.frame hm) hmarked

end Mark

/-! ## What happens to a machine -/

/-- What bears on the mark. -/
inductive Happening (R : Type) where
  /-- A program was put in. -/
  | loaded
  /-- An instruction was run to its end. -/
  | executed (e : Execution R)
  /-- The frame of `m` was taken. -/
  | taken (m : Machine R)

namespace Happening

variable {R : Type}

def repaints : Happening R → Bool
  | .loaded => true
  | .executed e => e.instruction.repaints
  | .taken _ => false

def isTaken : Happening R → Bool
  | .taken _ => true
  | _ => false

end Happening

section Chronicle
variable {R H : Type} [RandomSource R] [Host H]

/-- What happens in a frame that is taken if it is completed. -/
def Machine.frameChronicle (m : Machine R) : List (Happening R) :=
  m.frameHistory.map .executed ++ match m.frame.result with
    | .ok () => [.taken m.frame.state]
    | .error _ => []

def Call.chronicle : Call H → Machine R → List (Happening R)
  | .load rom, m => match (m.load rom).result with
    | .ok () => [.loaded]
    | .error _ => []
  | .setKey _ _, _ | .setKeys _, _ => []
  | .takeFrame, m => [.taken m]
  | .step, m => m.executes.map .executed
  | .frame, m => m.frameHistory.map .executed
  | .refresh keys, m => (m.setKeys keys).frameChronicle
  | .tick host, m => (m.setKeys (Host.keys host).1).frameChronicle

def chronicle : List (Call H) → Machine R → List (Happening R)
  | [], _ => []
  | c :: calls, m => c.chronicle m ++ chronicle calls (c.perform m).state

/-- A call that takes the frame of `t` is told what the take answers, and leaves what the
take leaves. -/
def Call.Takes (t m : Machine R) : Call H → Prop
  | .takeFrame => (Call.takeFrame : Call H).perform m = .done (.drawn t.takeFrame.1) t.takeFrame.2
  | .refresh keys =>
      ((Call.refresh keys : Call H).perform m).result =
          .ok (.shown (if t.takeFrame.1 then some t.screen else none)) ∧
        ((Call.refresh keys : Call H).perform m).state = t.takeFrame.2
  | .tick host =>
      (Console.tick ⟨m, host⟩).result = .ok () ∧
        (Console.tick ⟨m, host⟩).state = ⟨t.takeFrame.2,
          Host.render ⟨t.screen, t.takeFrame.1, t.soundOn⟩ (Host.keys host).2⟩
  | _ => False

/-- A call that takes no frame shows nothing: it does not answer with a picture and gives
none to a host. -/
def Call.ShowsNothing (m : Machine R) : Call H → Prop
  | .takeFrame => False
  | .refresh keys =>
      ∀ s, ((Call.refresh keys : Call H).perform m).result ≠ .ok (.shown (some s))
  | .tick host => (Console.tick ⟨m, host⟩).state.host = (Host.keys host).2
  | _ => True

end Chronicle

/-! ## Takes and what is between them -/

section Account
variable {R : Type}

def sinceTaken (h : List (Happening R)) : List (Happening R) :=
  (h.reverse.takeWhile fun x => !x.isTaken).reverse

namespace Happening

/-- Whether there is the mark of a new picture after a happening. -/
def mark (marked : Bool) : Happening R → Bool
  | .taken _ => false
  | x => marked || x.repaints

/-- The screen that was seen last, after a happening. -/
def see (seen : Screen) : Happening R → Screen
  | .taken m => m.screen
  | _ => seen

/-- A take finds the mark as it is, and without it the screen that was seen last. -/
def Fits (marked : Bool) (seen : Screen) : Happening R → Prop
  | .taken m => m.frameReady = marked ∧ m.Marked seen
  | _ => True

end Happening

/-- The screen at the last take, and at first this one. -/
def lastSeen (first : Screen) (h : List (Happening R)) : Screen := h.foldl Happening.see first

/-- Each of these happenings fits the mark and the screen that those before it have left. -/
def Tells : Bool → Screen → List (Happening R) → Prop
  | _, _, [] => True
  | marked, seen, x :: h => x.Fits marked seen ∧ Tells (x.mark marked) (x.see seen) h

theorem tells_append {marked : Bool} {seen : Screen} {h h' : List (Happening R)} :
    Tells marked seen (h ++ h') ↔
      Tells marked seen h ∧ Tells (h.foldl Happening.mark marked) (lastSeen seen h) h' := by
  induction h generalizing marked seen with
  | nil => simp [Tells, lastSeen]
  | cons x h ih => simp only [List.cons_append, Tells, List.foldl_cons, lastSeen, ih, and_assoc]

/-- The mark is there just if something was drawn since the last take. -/
theorem foldl_mark (h : List (Happening R)) :
    h.foldl Happening.mark false = (sinceTaken h).any Happening.repaints := by
  rw [sinceTaken, List.any_reverse, ← List.reverse_reverse h, List.foldl_reverse,
    List.reverse_reverse]
  generalize h.reverse = newest
  induction newest with
  | nil => rfl
  | cons x newest ih =>
      rw [List.foldr_cons, ih]
      cases x with
      | taken m => rfl
      | loaded => exact Bool.or_true _
      | executed e => exact Bool.or_comm _ _

theorem tells_executed (marked : Bool) (seen : Screen) (executions : List (Execution R)) :
    Tells marked seen (executions.map .executed) := by
  induction executions generalizing marked with
  | nil => trivial
  | cons e executions ih => exact ⟨trivial, ih _⟩

theorem lastSeen_executed (seen : Screen) (executions : List (Execution R)) :
    lastSeen seen (executions.map .executed) = seen := by
  induction executions with
  | nil => rfl
  | cons e executions ih => exact ih

theorem lastSeen_taken (first : Screen) (h : List (Happening R)) (m : Machine R) :
    lastSeen first (h ++ [.taken m]) = m.screen := by
  rw [lastSeen, List.foldl_append]
  rfl

/-- From `m` to `m'` this happened, and it tells the mark and the screen that was seen
last. -/
structure Account (seen : Screen) (m m' : Machine R) (h : List (Happening R)) : Prop where
  tells : Tells m.frameReady seen h
  mark : m'.frameReady = h.foldl Happening.mark m.frameReady
  marked : m'.Marked (lastSeen seen h)

namespace Account

variable {seen : Screen} {m m' m'' : Machine R} {h h' : List (Happening R)}

theorem trans (hfirst : Account seen m m' h) (hthen : Account (lastSeen seen h) m' m'' h') :
    Account seen m m'' (h ++ h') where
  tells := tells_append.mpr ⟨hfirst.tells, hfirst.mark ▸ hthen.tells⟩
  mark := by rw [List.foldl_append, ← hfirst.mark, hthen.mark]
  marked := by rw [lastSeen, List.foldl_append]; exact hthen.marked

theorem still (hmarked : m.Marked seen) (hmark : m'.frameReady = m.frameReady)
    (hscreen : m'.screen = m.screen) : Account seen m m' [] :=
  ⟨trivial, hmark, fun h => hscreen.trans (hmarked (hmark ▸ h))⟩

theorem take (hmarked : m.Marked seen) : Account seen m m.takeFrame.2 [.taken m] :=
  ⟨⟨⟨rfl, hmarked⟩, trivial⟩, rfl, fun _ => rfl⟩

end Account

end Account

section Runs
variable {R H : Type} [RandomSource R] [Host H]

omit [RandomSource R] in
theorem account_of_executed {m m' : Machine R} {seen : Screen} {executions : List (Execution R)}
    (hmark : m'.frameReady = executions.foldl (fun b e => b || e.instruction.repaints) m.frameReady)
    (hmarked : m'.Marked seen) : Account seen m m' (executions.map .executed) where
  tells := tells_executed _ _ _
  mark := by rw [List.foldl_map]; exact hmark
  marked := by rw [lastSeen_executed]; exact hmarked

section Calls
variable {m : Machine R} (hm : m.InBounds) {seen : Screen} (hmarked : m.Marked seen)
include hm hmarked

theorem account_step : Account seen m m.step.state (m.executes.map .executed) :=
  account_of_executed (mark_follows.step hm) (Machine.marked_step hm hmarked)

theorem account_frame : Account seen m m.frame.state (m.frameHistory.map .executed) :=
  account_of_executed (mark_follows.frame hm) (Machine.marked_frame hm hmarked)

theorem account_serve (keys : Keypad) :
    Account seen m (m.serve keys) (m.setKeys keys).frameChronicle := by
  have hkeyed : (m.setKeys keys).Marked seen := hmarked
  have hframe := account_frame (inBounds_kept.setKeys hm keys) hkeyed
  suffices Account seen (m.setKeys keys) (m.serve keys) (m.setKeys keys).frameChronicle from
    ⟨this.tells, this.mark, this.marked⟩
  simp only [Machine.serve, Machine.frameChronicle]
  cases (m.setKeys keys).frame.result with
  | ok _ => exact hframe.trans (.take hframe.marked)
  | error e =>
      rw [List.append_nil]
      exact hframe

theorem account_call (c : Call H) : Account seen m (c.perform m).state (c.chronicle m) := by
  cases c with
  | load rom =>
      rcases Nat.lt_or_ge Memory.programRoom rom.length with hlong | hfit
      · rw [perform_load_of_lt m hlong, Call.chronicle, m.load_of_lt hlong]
        exact .still hmarked rfl rfl
      · rw [perform_load_of_le m hfit, Call.chronicle, m.load_of_le hfit]
        exact ⟨⟨trivial, trivial⟩, (Bool.or_true _).symm, fun h => by cases h⟩
  | setKey _ _ | setKeys _ => exact .still hmarked rfl rfl
  | takeFrame => exact .take hmarked
  | step => exact account_step hm hmarked
  | frame => exact account_frame hm hmarked
  | refresh keys =>
      have hserve := account_serve hm hmarked keys
      have hmark : ((Call.refresh keys : Call H).perform m).state.frameReady = _ :=
        refresh_eq_serve (fun _ _ => rfl) keys m
      have hscreen : ((Call.refresh keys : Call H).perform m).state.screen = _ :=
        refresh_eq_serve (fun _ _ => rfl) keys m
      refine ⟨hserve.tells, hmark.trans hserve.mark, fun h => ?_⟩
      rw [hscreen]
      exact hserve.marked (hmark ▸ h)
  | tick host => rw [perform_tick]; exact account_serve hm hmarked _

end Calls

theorem account_calls (calls : List (Call H)) {m : Machine R} (hm : m.InBounds) {seen : Screen}
    (hmarked : m.Marked seen) : Account seen m (after calls m) (chronicle calls m) := by
  induction calls generalizing m seen with
  | nil => exact .still hmarked rfl rfl
  | cons c calls ih =>
      have hcall := account_call hm hmarked c
      exact hcall.trans (ih (hm.perform c) hcall.marked)

theorem Window.refresh_of_ok {m : Machine R} {keys : Keypad}
    (h : (m.setKeys keys).frame.result = .ok ()) :
    let served := (m.setKeys keys).frame
    refresh keys m =
      ⟨.ok (if served.state.takeFrame.1 then some served.state.screen else none),
        served.state.takeFrame.2, served.log⟩ := by
  have hrun : m.isHalted = false := by
    rw [Bool.eq_false_iff, ne_eq, Machine.isHalted_iff]
    rintro ⟨fault, hfault⟩
    have hstays : (m.setKeys keys).status = .halted fault := hfault
    rw [Machine.frame_of_halted hstays] at h
    cases h
  rw [refresh, if_neg (Bool.eq_false_iff.mp hrun)]
  simp only [h]
  rfl

theorem Window.refresh_of_error {m : Machine R} {keys : Keypad} {e : Stop Fault}
    (h : (m.setKeys keys).frame.result = .error e) (s : Screen) :
    (refresh keys m).result ≠ .ok (some s) := by
  unfold refresh
  cases m.isHalted with
  | true => simp
  | false => cases e <;> simp [h]

theorem taken_mem_frameChronicle_iff {m t : Machine R} :
    .taken t ∈ m.frameChronicle ↔ m.frame.result = .ok () ∧ t = m.frame.state := by
  unfold Machine.frameChronicle
  cases hr : m.frame.result <;> simp

/-- A take in the chronicle of a call is one that the call has made. -/
theorem takes_of_mem {c : Call H} {m t : Machine R} (h : .taken t ∈ c.chronicle m) :
    c.Takes t m := by
  cases c with
  | load rom =>
      simp only [Call.chronicle] at h
      cases hr : (m.load rom).result <;> simp [hr] at h
  | setKey _ _ | setKeys _ => exact absurd h List.not_mem_nil
  | step | frame => simp [Call.chronicle] at h
  | takeFrame =>
      simp only [Call.chronicle, List.mem_singleton, Happening.taken.injEq] at h
      rw [h]
      rfl
  | refresh keys =>
      obtain ⟨hok, rfl⟩ := taken_mem_frameChronicle_iff.mp h
      rw [Call.Takes, Call.perform, Window.refresh_of_ok hok]
      exact ⟨rfl, rfl⟩
  | tick host =>
      obtain ⟨hok, rfl⟩ := taken_mem_frameChronicle_iff.mp h
      have htick := Console.tick_of_ok hok
      exact ⟨congrArg Outcome.result htick, congrArg Outcome.state htick⟩

theorem frame_error_of_not_mem {m : Machine R} (h : ∀ t, .taken t ∉ m.frameChronicle) :
    ∃ e, m.frame.result = .error e := by
  cases hr : m.frame.result with
  | ok _ => exact absurd (taken_mem_frameChronicle_iff.mpr ⟨hr, rfl⟩) (h m.frame.state)
  | error e => exact ⟨e, rfl⟩

/-- A call with no take in its chronicle shows nothing. -/
theorem showsNothing_of_not_mem {c : Call H} {m : Machine R}
    (h : ∀ t, .taken t ∉ c.chronicle m) : c.ShowsNothing m := by
  cases c with
  | load _ | setKey _ _ | setKeys _ | step | frame => trivial
  | takeFrame => exact h m List.mem_cons_self
  | refresh keys =>
      obtain ⟨e, he⟩ := frame_error_of_not_mem h
      intro s hs
      have hrefresh := Window.refresh_of_error he s
      simp only [Call.perform, Outcome.translate] at hs
      cases hr : (Window.refresh keys m).result with
      | ok shown? =>
          rw [hr] at hs
          cases hs
          exact hrefresh hr
      | error stop => cases stop <;> simp [hr] at hs
  | tick host =>
      obtain ⟨e, he⟩ := frame_error_of_not_mem h
      exact congrArg (·.state.host) (Console.tick_of_error he)

/-- Among any calls, a take answers that there is something new just if a program was put
in or something was drawn since the take before it.  If it answers that there is not, the
screen is as it was then. -/
theorem take_tells (settings : Settings) (source : R) (calls : List (Call H)) :
    let start := Machine.idle settings source
    (∀ (before later : List (Happening R)) (t : Machine R),
      chronicle calls start = before ++ .taken t :: later →
        (t.takeFrame.1 = true ↔ ∃ x ∈ sinceTaken before, x.repaints = true) ∧
        (t.takeFrame.1 = false → t.screen = lastSeen start.screen before)) ∧
    (∀ (c : Call H) (m t : Machine R), .taken t ∈ c.chronicle m → c.Takes t m) ∧
    ∀ (c : Call H) (m : Machine R), (∀ t, .taken t ∉ c.chronicle m) → c.ShowsNothing m := by
  intro start
  refine ⟨?_, fun c m t h => takes_of_mem h, fun c m h => showsNothing_of_not_mem h⟩
  intro before later t hcut
  have hfresh : start.Marked start.screen := fun _ => rfl
  have htells := (account_calls calls (inBounds_idle settings source) hfresh).tells
  rw [hcut, tells_append] at htells
  obtain ⟨⟨hmark, hmarked⟩, -⟩ := htells.2
  refine ⟨?_, hmarked⟩
  rw [show t.takeFrame.1 = before.foldl Happening.mark false from hmark, foldl_mark,
    List.any_eq_true]

theorem Machine.takeFrame_again {R : Type} (m : Machine R) : m.takeFrame.2.takeFrame.1 = false := rfl

/-- What happens if a program that begins with 00E0 is taken before and after that, and then
once more. -/
theorem chronicle_of_clear {m : Machine R} {rom : List UInt8}
    (hrom : rom.length ≤ Memory.programRoom) (hword : (m.loaded rom).nextWord.Spells .clear) :
    let taken := (m.loaded rom).takeFrame.2
    chronicle ([.load rom, .takeFrame, .step, .takeFrame, .takeFrame] : List (Call H)) m =
      [.loaded, .taken (m.loaded rom), .executed ⟨taken, .clear⟩, .taken taken.step.state,
        .taken taken.step.state.takeFrame.2] := by
  intro taken
  have hload : (Call.load rom : Call H).chronicle m = [.loaded] := by
    rw [Call.chronicle, m.load_of_le hrom]
  have hin : taken.InBounds := inBounds_kept.takeFrame (inBounds_loaded rom m)
  have hpc : taken.pc + 2 ≤ Memory.size := show 0x200 + 2 ≤ 0x1000 by decide
  have hexecutes : taken.executes = [⟨taken, .clear⟩] :=
    Machine.executes_of_effect hin rfl hpc hword rfl
  rw [chronicle, hload, perform_load_of_le m hrom]
  show [Happening.loaded] ++ ([.taken (m.loaded rom)] ++ (taken.executes.map .executed ++
    ([.taken taken.step.state] ++ ([.taken taken.step.state.takeFrame.2] ++ [])))) = _
  rw [hexecutes]
  rfl

end Runs

/-- 00E0 draws on a screen that was taken already: after it a take answers that there is
something new, and the next that there is not. -/
theorem take_tells_of_clear :
    let m := (Machine.idle {} (⟨0, 1⟩ : Counter)).loaded [0x00, 0xE0]
    let cleared := m.takeFrame.2.step.state
    cleared.takeFrame.1 = true ∧ cleared.takeFrame.2.takeFrame.1 = false ∧
    cleared.takeFrame.2.screen = cleared.screen := by
  intro m
  -- left as a definition, the machine would be computed when it is compared
  dsimp only
  have hword : m.nextWord.Spells .clear := by
    rw [Machine.nextWord_loaded _ rfl rfl]
    rfl
  have hchronicle := chronicle_of_clear (H := Terminal) (by decide) hword
  obtain ⟨htells, -⟩ := take_tells (H := Terminal) {} (⟨0, 1⟩ : Counter)
    [.load [0x00, 0xE0], .takeFrame, .step, .takeFrame, .takeFrame]
  obtain ⟨hsecond, -⟩ :=
    htells [.loaded, .taken m, .executed ⟨m.takeFrame.2, .clear⟩] _ m.takeFrame.2.step.state
      hchronicle
  obtain ⟨-, hscreen⟩ :=
    htells ([.loaded, .taken m, .executed ⟨m.takeFrame.2, .clear⟩] ++
      [.taken m.takeFrame.2.step.state]) [] m.takeFrame.2.step.state.takeFrame.2 hchronicle
  rw [lastSeen_taken] at hscreen
  have hdrawn : m.takeFrame.2.step.state.takeFrame.1 = true :=
    hsecond.mpr ⟨_, List.mem_singleton.mpr rfl, rfl⟩
  have hundrawn := m.takeFrame.2.step.state.takeFrame_again
  exact ⟨hdrawn, hundrawn, hscreen hundrawn⟩

end Chip8
