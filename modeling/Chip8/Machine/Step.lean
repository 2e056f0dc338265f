/-
# `Chip8.Machine.Step` — instructions one by one and by the frame

A *step* reads the word at the program counter, moves past it and runs it.
An idle machine takes no steps, and a halted one answers each with the
fault that halted it.  The first failure halts the machine: its fault is
logged there and nowhere else.

A *frame* lasts a sixtieth of a second.  Both timers count down by one, and
then a batch of steps is run, which only a fault cuts short.
-/
import Chip8.Machine.Execute

namespace Chip8.Machine

variable {R : Type} [RandomSource R]

/-! ## Steps -/

/-- Runs the instruction a word spells, if it spells one. -/
def executeWord (w : Word) (m : Machine R) : Effect R :=
  match Instruction.decode? w with
  | some i => m.execute i
  | none => .raise (.unknownOpcode w) m

/-- Reads the word at the program counter and moves past it. -/
def fetch (m : Machine R) : Outcome Cause (Machine R) Word :=
  match m.memory.word m.pc with
  | .error e => .stop e m
  | .ok w =>
      if m.pc + 2 < 0x10000 then
        ⟨.ok w, { m with pc := m.pc + 2 }, #[.fetched m.pc w]⟩
      else ⟨.error .overflow, m, #[.fetched m.pc w]⟩

/-- Turns a cause that was raised at `pc` into the fault that halts the
machine. -/
def haltOnError (pc : Nat) (o : Effect R) : Outcome Fault (Machine R) Unit :=
  match o.result with
  | .ok () => ⟨.ok (), o.state, o.log⟩
  | .error .overflow => ⟨.error .overflow, o.state, o.log⟩
  | .error (.raised cause) =>
      let fault : Fault := ⟨pc, cause⟩
      ⟨.error (.raised fault), { o.state with status := .halted fault },
        o.log.push (.halted fault)⟩

/-- One instruction. -/
def step (m : Machine R) : Outcome Fault (Machine R) Unit :=
  match m.status with
  | .idle => .done () m
  | .halted fault => .raise fault m
  | .running => haltOnError m.pc (m.fetch.andThen executeWord)

/-! ## Frames -/

/-- Both timers go down by one, down to zero. -/
def countDown (m : Machine R) : Machine R :=
  { m with
    delay := if m.delay = 0 then 0 else m.delay - 1
    sound := if m.sound = 0 then 0 else m.sound - 1 }

/-- A sixtieth of a second. -/
def frame (m : Machine R) : Outcome Fault (Machine R) Unit :=
  match m.status with
  | .halted fault => .raise fault m
  | _ => .repeated step m.settings.perFrame (.done () m.countDown)

end Chip8.Machine
