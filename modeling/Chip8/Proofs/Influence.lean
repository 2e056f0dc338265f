/-
# `Chip8.Proofs.Influence` — what can make two runs differ

The `Core` of a machine is what its program works on and shows: memory, program
counter, stack, registers, I and the screen with its mark, together with the
dialect and the status.  What lies outside reaches the core through five
instructions only, and each of them lets in one thing (`Instruction.input`):

    EX9E, EXA1   whether the key VX is held
    FX0A         the lowest key held
    FX07         the delay timer
    CXNN         the bits of a random byte that are set in NN

Machines with the same core to whose next instruction the same is let in take
the same step (`step_alike`): they answer alike, log alike, and have the same
core again.  A run in which nothing is let in is thus the same run whatever keys
are held, whatever bytes the source has to offer and whatever the timers show
(`same_core_after`).  CX00 takes a byte from the source and lets nothing in.
-/
import Chip8.Proofs.History

namespace Chip8

/-! ## The core -/

/-- What a program works on and shows, and how its words are read. -/
structure Core where
  memory : Memory
  pc : Nat
  stack : List Nat
  v : Vector UInt8 16
  index : Nat
  screen : Screen
  frameReady : Bool
  dialect : Dialect
  status : Status

namespace Machine

variable {R R' : Type}

/-- All of a machine but the timers, the keys, the random source, the speed and the
seed. -/
def core (m : Machine R) : Core where
  memory := m.memory
  pc := m.pc
  stack := m.stack
  v := m.v
  index := m.index
  screen := m.screen
  frameReady := m.frameReady
  dialect := m.settings.dialect
  status := m.status

/-- Two machines with the same core; the rest may differ, the kind of their random
sources included. -/
def SameCore (a : Machine R) (b : Machine R') : Prop := a.core = b.core

namespace SameCore

variable {a : Machine R} {b : Machine R'}

theorem memory (h : a.SameCore b) : a.memory = b.memory := congrArg Core.memory h
theorem pc (h : a.SameCore b) : a.pc = b.pc := congrArg Core.pc h
theorem stack (h : a.SameCore b) : a.stack = b.stack := congrArg Core.stack h
theorem v (h : a.SameCore b) : a.v = b.v := congrArg Core.v h
theorem index (h : a.SameCore b) : a.index = b.index := congrArg Core.index h
theorem screen (h : a.SameCore b) : a.screen = b.screen := congrArg Core.screen h
theorem status (h : a.SameCore b) : a.status = b.status := congrArg Core.status h

theorem dialect (h : a.SameCore b) : a.settings.dialect = b.settings.dialect :=
  congrArg Core.dialect h

theorem update (h : a.SameCore b) (f : Core → Core) {a' : Machine R} {b' : Machine R'}
    (ha : a'.core = f a.core) (hb : b'.core = f b.core) : a'.SameCore b' :=
  ha.trans ((congrArg f h).trans hb.symm)

theorem setRegisters (h : a.SameCore b) {v v' : Vector UInt8 16} (hv : v = v') :
    SameCore { a with v := v } { b with v := v' } :=
  h.update (fun c => { c with v := v }) rfl (hv ▸ rfl)

theorem setV (h : a.SameCore b) (x : Fin 16) {byte byte' : UInt8} (hbyte : byte = byte') :
    (a.setV x byte).SameCore (b.setV x byte') :=
  h.setRegisters (by rw [h.v, hbyte])

theorem setFlag (h : a.SameCore b) {c c' : Bool} (hc : c = c') :
    (a.setFlag c).SameCore (b.setFlag c') :=
  h.setV 0xF (by rw [hc])

theorem setPc (h : a.SameCore b) {addr addr' : Nat} (haddr : addr = addr') :
    SameCore { a with pc := addr } { b with pc := addr' } :=
  h.update (fun c => { c with pc := addr }) rfl (haddr ▸ rfl)

theorem setIndex (h : a.SameCore b) {addr addr' : Nat} (haddr : addr = addr') :
    SameCore { a with index := addr } { b with index := addr' } :=
  h.update (fun c => { c with index := addr }) rfl (haddr ▸ rfl)

theorem setMemory (h : a.SameCore b) (memory : Memory) :
    SameCore { a with memory := memory } { b with memory := memory } :=
  h.update (fun c => { c with memory := memory }) rfl rfl

theorem halt (h : a.SameCore b) (fault : Fault) : (a.halt fault).SameCore (b.halt fault) :=
  h.update (fun c => { c with status := .halted fault }) rfl rfl

theorem past (h : a.SameCore b) : a.past.SameCore b.past :=
  h.setPc (congrArg (· + 2) h.pc)

theorem vx (h : a.SameCore b) (x : Fin 16) : a.v.get x = b.v.get x := by rw [h.v]

theorem attempted? (h : a.SameCore b) : a.attempted? = b.attempted? := by
  simp only [Machine.attempted?, nextWord, h.memory, h.pc, h.status]

/-! ## The parts of an instruction -/

theorem goto (h : a.SameCore b) {addr addr' : Nat} (haddr : addr = addr') :
    Outcome.Alike SameCore (a.goto addr) (b.goto addr') :=
  .ite (by rw [haddr]) (fun _ => .done (h.setPc haddr) ()) fun _ => .stop h .overflow

theorem skipIf (h : a.SameCore b) {c c' : Bool} (hc : c = c') :
    Outcome.Alike SameCore (a.skipIf c) (b.skipIf c') :=
  .ite (by rw [hc]) (fun _ => h.goto (congrArg (· + 2) h.pc)) fun _ => .done h ()

theorem passTransfer (h : a.SameCore b) (x : Fin 16) :
    Outcome.Alike SameCore (a.passTransfer x) (b.passTransfer x) := by
  have hsum : a.index + (x + 1) = b.index + (x + 1) := congrArg (· + (x.val + 1)) h.index
  refine .ite (by rw [h.dialect]) (fun _ => ?_) fun _ => .done h ()
  exact .ite (by rw [hsum]) (fun _ => .done (h.setIndex hsum) ()) fun _ => .stop h .overflow

theorem combine (h : a.SameCore b) (op : Operation) (x y : Fin 16) :
    (a.combine op x y).SameCore (b.combine op x y) := by
  cases op with
  | copy | or | and | xor => exact h.setV x (by rw [h.v])
  | add | sub | subFrom => exact (h.setV x (by rw [h.v])).setFlag (by rw [h.v])
  | shiftRight | shiftLeft =>
      have hoperand : a.shiftOperand x y = b.shiftOperand x y := by
        rw [shiftOperand, shiftOperand, h.dialect, h.v]
      exact (h.setV x (by rw [hoperand])).setFlag (by rw [hoperand])

theorem draw (h : a.SameCore b) (x y n : Fin 16) :
    Outcome.Alike SameCore (a.draw x y n) (b.draw x y n) := by
  have hclear : (a.setFlag false).SameCore (b.setFlag false) := h.setFlag rfl
  have hslice : (a.setFlag false).memory.slice (a.setFlag false).index n =
      (b.setFlag false).memory.slice (b.setFlag false).index n := by
    rw [hclear.memory, hclear.index]
  simp only [Machine.draw, hslice, h.vx, hclear.screen]
  split
  · exact .stop hclear _
  · exact .done ((hclear.setFlag rfl).update
      (fun c => { c with screen := _, frameReady := true }) rfl rfl) ()

theorem addIndex (h : a.SameCore b) (x : Fin 16) :
    Outcome.Alike SameCore (a.addIndex x) (b.addIndex x) := by
  have hsum : a.index + (a.v.get x).toNat = b.index + (b.v.get x).toNat := by
    rw [h.index, h.v]
  refine .ite (by rw [hsum]) (fun _ => ?_) fun _ => hsum ▸ .stop h _
  have hgrown := h.setIndex hsum
  exact .ite (by rw [h.dialect, hsum]) (fun _ => .done (hgrown.setFlag rfl) ())
    fun _ => .done hgrown ()

theorem awaitKey (h : a.SameCore b) (x : Fin 16) (hkey : a.keys.lowest? = b.keys.lowest?) :
    Outcome.Alike SameCore (a.awaitKey x) (b.awaitKey x) := by
  simp only [Machine.awaitKey, hkey]
  split
  · exact .done (h.setV x rfl) ()
  · exact .ite (by rw [h.pc]) (fun _ => .done (h.setPc (congrArg (· - 2) h.pc)) ())
      fun _ => .stop h .overflow

theorem ret (h : a.SameCore b) : Outcome.Alike SameCore a.ret b.ret := by
  simp only [Machine.ret, h.stack]
  split
  · exact .stop h _
  · next addr rest _ =>
      exact .done (h.update (fun c => { c with pc := addr, stack := rest }) rfl rfl) ()

theorem call (h : a.SameCore b) (target : Target) :
    Outcome.Alike SameCore (a.call target) (b.call target) := by
  refine .ite (by rw [h.stack]) (fun _ => .stop h _) fun _ => ?_
  exact .done (h.update (fun c => { c with stack := c.pc :: c.stack, pc := target }) rfl rfl) ()

theorem storeDecimal (h : a.SameCore b) (x : Fin 16) :
    Outcome.Alike SameCore (a.storeDecimal x) (b.storeDecimal x) := by
  have hfill : a.memory.fill a.index (decimals (a.v.get x)) =
      b.memory.fill b.index (decimals (b.v.get x)) := by
    rw [h.memory, h.index, h.v]
  simp only [Machine.storeDecimal, hfill]
  split
  · exact .stop h _
  · exact .done (h.setMemory _) ()

theorem storeRegisters (h : a.SameCore b) (x : Fin 16) :
    Outcome.Alike SameCore (a.storeRegisters x) (b.storeRegisters x) := by
  have hfill : a.memory.fill a.index (a.v.toList.take (x + 1)) =
      b.memory.fill b.index (b.v.toList.take (x + 1)) := by
    rw [h.memory, h.index, h.v]
  simp only [Machine.storeRegisters, hfill]
  split
  · exact .stop h _
  · exact (h.setMemory _).passTransfer x

theorem loadRegisters (h : a.SameCore b) (x : Fin 16) :
    Outcome.Alike SameCore (a.loadRegisters x) (b.loadRegisters x) := by
  have hslice : a.memory.slice a.index (x + 1) = b.memory.slice b.index (x + 1) := by
    rw [h.memory, h.index]
  simp only [Machine.loadRegisters, hslice]
  split
  · exact .stop h _
  · exact (h.setRegisters (by rw [h.v])).passTransfer x

theorem haltOnError (pc : Nat) {o : Effect R} {o' : Effect R'} (h : Outcome.Alike SameCore o o') :
    Outcome.Alike SameCore (haltOnError pc o) (haltOnError pc o') := by
  unfold Machine.haltOnError
  rw [← h.result]
  split
  · exact ⟨rfl, h.log, h.state⟩
  · exact ⟨rfl, h.log, h.state⟩
  · exact ⟨rfl, by simp only [h.log], h.state.halt _⟩

end SameCore

end Machine

/-! ## What is let in -/

/-- What an instruction may learn from outside the core. -/
inductive Input where
  | nothing
  | held (b : Bool)
  | lowest (key? : Option Nat)
  | byte (b : UInt8)

section Runs
variable {R R' : Type} [RandomSource R] [RandomSource R']

namespace Instruction

def input (m : Machine R) : Instruction → Input
  | .skipIfHeld x | .skipUnlessHeld x => .held (m.keys.isHeld (m.v.get x).toNat)
  | .awaitKey _ => .lowest m.keys.lowest?
  | .getDelay _ => .byte m.delay
  | .random _ nn => .byte ((RandomSource.next m.source).1 &&& nn)
  | _ => .nothing

/-- The instructions that let something in: EX9E, EXA1, FX0A, FX07, and CXNN unless NN
is 0. -/
def LetsIn : Instruction → Prop
  | .skipIfHeld _ | .skipUnlessHeld _ | .awaitKey _ | .getDelay _ => True
  | .random _ nn => nn ≠ 0
  | _ => False

theorem input_of_not_letsIn {i : Instruction} (hi : ¬i.LetsIn) (a : Machine R) (b : Machine R') :
    i.input a = i.input b := by
  cases i with
  | skipIfHeld _ | skipUnlessHeld _ | awaitKey _ | getDelay _ => exact absurd trivial hi
  | random x nn =>
      have hzero : nn = 0 := Classical.not_not.mp hi
      simp only [input, hzero, UInt8.and_zero]
  | _ => rfl

theorem input_past (m : Machine R) (i : Instruction) : i.input m.past = i.input m := by
  cases i <;> rfl

end Instruction

namespace Machine

variable {a : Machine R} {b : Machine R'}

theorem execute_alike (h : a.SameCore b) {i : Instruction} (hinput : i.input a = i.input b) :
    Outcome.Alike SameCore (a.execute i) (b.execute i) := by
  cases i with
  | clear =>
      exact .done (h.update (fun c => { c with screen := .blank, frameReady := true }) rfl rfl) ()
  | ret => exact h.ret
  | native _ => exact .done h ()
  | jump target => exact .done (h.setPc rfl) ()
  | call target => exact h.call target
  | skipIfByte _ _ | skipUnlessByte _ _ | skipIfEqual _ _ | skipUnlessEqual _ _ =>
      exact h.skipIf (by rw [h.v])
  | setByte x _ => exact .done (h.setV x rfl) ()
  | addByte x _ => exact .done (h.setV x (by rw [h.v])) ()
  | combine op x y => exact .done (h.combine op x y) ()
  | setIndex _ => exact .done (h.setIndex rfl) ()
  | jumpOffset _ => exact h.goto (by rw [offsetRegister, offsetRegister, h.dialect, h.v])
  | random x nn =>
      simp only [execute, random]
      refine .done ?_ ()
      exact (h.setV x (Input.byte.inj hinput)).update id rfl rfl
  | draw x y n => exact h.draw x y n
  | skipIfHeld _ => exact h.skipIf (Input.held.inj hinput)
  | skipUnlessHeld _ => exact h.skipIf (congrArg (!·) (Input.held.inj hinput))
  | getDelay x => exact .done (h.setV x (Input.byte.inj hinput)) ()
  | awaitKey x => exact h.awaitKey x (Input.lowest.inj hinput)
  | setDelay _ | setSound _ =>
      simp only [execute]
      refine .done ?_ ()
      exact h.update id rfl rfl
  | addIndex x => exact h.addIndex x
  | pointGlyph _ => exact .done (h.setIndex (by rw [h.v])) ()
  | storeDecimal x => exact h.storeDecimal x
  | storeRegisters x => exact h.storeRegisters x
  | loadRegisters x => exact h.loadRegisters x

/-! ## Steps -/

theorem executeWord_alike (h : a.SameCore b) {w : Word}
    (hinput : ∀ i, Instruction.decode? w = some i → i.input a = i.input b) :
    Outcome.Alike SameCore (executeWord w a) (executeWord w b) := by
  unfold executeWord
  cases hw : Instruction.decode? w with
  | none => exact .stop h _
  | some i => exact execute_alike h (hinput i hw)

/-- Machines with the same core take the same step if the same is let in. -/
theorem step_alike (h : a.SameCore b)
    (hinput : ∀ i, a.attempted? = some i → i.input a = i.input b) :
    Outcome.Alike SameCore a.step b.step := by
  cases hstatus : a.status with
  | idle =>
      rw [step_of_idle hstatus, step_of_idle (h.status ▸ hstatus)]
      exact .done h ()
  | halted fault =>
      rw [step_of_halted hstatus, step_of_halted (h.status ▸ hstatus)]
      exact .stop h _
  | running =>
      have hstatus' : b.status = .running := h.status ▸ hstatus
      by_cases hpc : a.pc + 2 ≤ Memory.size
      · have hword : a.nextWord = b.nextWord := by rw [nextWord, nextWord, h.memory, h.pc]
        have hexecute : Outcome.Alike SameCore (executeWord b.nextWord a.past)
            (executeWord b.nextWord b.past) := by
          refine executeWord_alike h.past ?_
          intro i hi
          rw [i.input_past, i.input_past]
          exact hinput i (by rw [attempted?_of_le hstatus hpc, hword, hi])
        rw [step_of_le hstatus hpc, step_of_le hstatus' (h.pc ▸ hpc), h.pc, hword]
        exact SameCore.haltOnError _ ⟨hexecute.result, by rw [hexecute.log], hexecute.state⟩
      · obtain ⟨e, hread, hstep⟩ := step_of_not_le hstatus hpc
        obtain ⟨e', hread', hstep'⟩ := step_of_not_le hstatus' (h.pc ▸ hpc)
        -- the reason lies in memory and program counter, which are the same
        have he : (.error e : Except (Stop Cause) Word) = .error e' := by
          rw [← hread, ← hread', h.memory, h.pc]
        cases he
        rw [hstep, hstep', h.pc]
        exact SameCore.haltOnError _ (.stop h e)

/-! ## Runs -/

theorem execute_of_letsIn {m : Machine R} (hm : 2 ≤ m.pc) (hpc : m.pc ≤ Memory.size)
    {i : Instruction} (hi : i.LetsIn) : (m.execute i).result = .ok () := by
  rw [Memory.size_eq] at hpc
  have hskip : m.pc + 2 < 0x10000 := by omega
  cases i with
  | skipIfHeld _ | skipUnlessHeld _ =>
      rw [execute, skipIf_eq _ _ hskip]
      rfl
  | awaitKey x =>
      simp only [execute, awaitKey]
      cases m.keys.lowest? with
      | some key => rfl
      | none => simp only [if_pos hm, Outcome.done_result]
  | getDelay _ | random _ _ => rfl
  | _ => exact hi.elim

theorem executes_of_letsIn {m : Machine R} {i : Instruction} (hi : m.attempted? = some i)
    (hlets : i.LetsIn) : m.executes = [⟨m, i⟩] := by
  have hpc := (attempted?_eq_some_iff.mp hi).1.2
  exact executes_of_attempted hi (execute_of_letsIn (Nat.le_add_left 2 m.pc) hpc hlets)

theorem input_eq_of_quiet (hquiet : ∀ e ∈ a.executes, ¬e.instruction.LetsIn) {i : Instruction}
    (hi : a.attempted? = some i) : i.input a = i.input b := by
  refine i.input_of_not_letsIn ?_ a b
  intro hlets
  rw [executes_of_letsIn hi hlets] at hquiet
  exact hquiet _ List.mem_cons_self hlets

def stepped : Nat → Machine R → Machine R
  | 0, m => m
  | k + 1, m => (stepped k m).step.state

/-- While the first of two machines with the same core executes nothing that lets
something in, every step answers alike on both, and the cores stay the same. -/
theorem same_core_after (h : a.SameCore b) {k : Nat}
    (hquiet : ∀ j < k, ∀ e ∈ (a.stepped j).executes, ¬e.instruction.LetsIn) :
    (∀ j < k, (a.stepped j).step.result = (b.stepped j).step.result) ∧
    ∀ j ≤ k, (a.stepped j).SameCore (b.stepped j) := by
  have hstep : ∀ j < k, (a.stepped j).SameCore (b.stepped j) →
      Outcome.Alike SameCore (a.stepped j).step (b.stepped j).step :=
    fun j hj hsame => step_alike hsame fun _ => input_eq_of_quiet (hquiet j hj)
  have hsame : ∀ j ≤ k, (a.stepped j).SameCore (b.stepped j) := by
    intro j hj
    induction j with
    | zero => exact h
    | succ j ih => exact (hstep j hj (ih (Nat.le_of_succ_le hj))).state
  exact ⟨fun j hj => (hstep j hj (hsame j (Nat.le_of_lt hj))).result, hsame⟩

/-- A CX00 and a jump after it let nothing in. -/
theorem quiet_of_random {m : Machine R} (hm : m.InBounds) (hrun : m.status = .running)
    (hpc : m.pc + 2 + 2 ≤ Memory.size) {x : Fin 16} {target : Target}
    (hfirst : m.nextWord.Spells (.random x 0))
    (hsecond : (m.memory.wordAt (m.pc + 2)).Spells (.jump target)) :
    ∀ j < 2, ∀ e ∈ (m.stepped j).executes, ¬e.instruction.LetsIn := by
  have hpc' : m.pc + 2 ≤ Memory.size := Nat.le_of_add_right_le hpc
  have hstep : m.stepped 1 = (Instruction.random x 0).effect m.past :=
    congrArg Outcome.state (step_of_effect hm hrun hpc' hfirst rfl)
  have hnext : (m.stepped 1).executes = [⟨m.stepped 1, .jump target⟩] := by
    refine executes_of_effect hm.step ?_ ?_ ?_ rfl
    all_goals rw [hstep]
    · exact hrun
    · exact hpc
    · exact hsecond
  intro j hj e he
  match j with
  | 0 =>
      rw [stepped, executes_of_effect hm hrun hpc' hfirst rfl, List.mem_singleton] at he
      subst he
      exact fun hlets => hlets rfl
  | 1 =>
      rw [hnext, List.mem_singleton] at he
      subst he
      exact id

/-- CA00 1200 with other keys, other timers and another kind of source. -/
theorem same_core_after_of_random :
    let rom : List UInt8 := [0xCA, 0x00, 0x12, 0x00]
    let a := (idle {} (⟨0, 1⟩ : Counter)).loaded rom
    let b := { (idle {} (ChaCha.ofSeed 5)).loaded rom with
      keys := .ofMask 0x0420, delay := 9, sound := 3 }
    (a.stepped 1).step.result = (b.stepped 1).step.result ∧
      (a.stepped 2).SameCore (b.stepped 2) := by
  intro rom a b
  have hsame : a.SameCore b := rfl
  have hfirst : a.nextWord.Spells (.random 0xA 0) := by
    rw [nextWord_loaded _ rfl rfl]
    exact ⟨rfl, rfl, rfl⟩
  have hsecond : (a.memory.wordAt (a.pc + 2)).Spells (.jump 0x200) := by
    rw [pc_loaded, wordAt_loaded (k := 2) _ (by decide) rfl rfl]
    exact ⟨rfl, rfl⟩
  have hpc : a.pc + 2 + 2 ≤ Memory.size := show 0x200 + 2 + 2 ≤ 0x1000 by decide
  have hquiet := quiet_of_random (inBounds_loaded _ _) rfl hpc hfirst hsecond
  obtain ⟨hresult, hcore⟩ := same_core_after hsame hquiet
  exact ⟨hresult 1 (by decide), hcore 2 (by decide)⟩

end Machine

end Runs

end Chip8
