/-
# `Chip8.Proofs.Execute` — an instruction either fails or has its effect

`execute` mixes what an instruction does with the checks that may stop it.
Here the two are taken apart: `cause?` says whether an instruction fails and
why, `effect` what it does if it does not, and `spoil` what it leaves if it
does.  Where the sums of addresses fit their widths (`Ready`), executing is
one or the other (`execute_eq`):

    cause? = some c    raise c, the machine is the spoiled one
    cause? = none      done, the machine is the effect

Everything else about running instructions is read off `cause?` and
`effect`; nothing after this module unfolds `execute`.
-/
import Chip8.Machine.Execute
import Chip8.Proofs.Memory
import Chip8.Proofs.Outcome

namespace Chip8

variable {R : Type}

/-! ## Ready to execute -/

/-- The word has been read and the program counter moved past it, and no sum of
addresses that an instruction may form leaves its width. -/
structure Machine.Ready (m : Machine R) : Prop where
  two_le_pc : 2 ≤ m.pc
  pc_le : m.pc ≤ Memory.size
  index_lt : m.index < 0x10000

/-! ## Failing -/

namespace Instruction

/-- How many bytes from I on an instruction reads or writes. -/
def span? : Instruction → Option Nat
  | .draw _ _ n => some n
  | .storeDecimal _ => some 3
  | .storeRegisters x | .loadRegisters x => some (x + 1)
  | _ => none

/-- What is wrong with a range of `len` bytes from `addr` on, if something is. -/
def rangeCause? (addr len : Nat) : Option Cause :=
  if Memory.size < addr + len then some (.outOfBounds (max addr Memory.size)) else none

/-- Why an instruction fails, if it does. -/
def cause? (m : Machine R) : Instruction → Option Cause
  | .ret => if m.stack = [] then some .stackUnderflow else none
  | .call _ => if m.stack.length = Machine.stackDepth then some .stackOverflow else none
  | .addIndex x =>
      let sum := m.index + (m.v.get x).toNat
      if sum < 0x10000 then none else some (.outOfBounds sum)
  | i => i.span?.bind (rangeCause? m.index)

/-- What an instruction that fails leaves: the machine as it was, but for the flag
that a DXYN has already cleared. -/
def spoil (m : Machine R) : Instruction → Machine R
  | .draw _ _ _ => m.setFlag false
  | _ => m

end Instruction

/-! ## Succeeding -/

/-- The `len` bytes from `addr` on. -/
def Memory.bytesFrom (m : Memory) (addr len : Nat) : List UInt8 :=
  (List.range len).map fun k => m.byteAt (addr + k)

namespace Machine

/-- Passes over the next instruction if `b`. -/
def skip (m : Machine R) (b : Bool) : Machine R :=
  { m with pc := if b then m.pc + 2 else m.pc }

/-- Moves I past V0 to VX if the dialect has it so. -/
def pass (m : Machine R) (x : Fin 16) : Machine R :=
  { m with index := if m.settings.dialect.advancesIndex then m.index + (x + 1) else m.index }

/-- The sprite that DXYN draws, alone on a dark screen. -/
def sprite (m : Machine R) (x y n : Fin 16) : Screen :=
  .ofSprite (m.memory.bytesFrom m.index n) ((m.v.get x).toNat % 64) ((m.v.get y).toNat % 32)

/-- Whether FX1E sets the flag. -/
def flagsIndex (m : Machine R) (x : Fin 16) : Bool :=
  m.settings.dialect.flagsIndexOverflow && Memory.size ≤ m.index + (m.v.get x).toNat

end Machine

/-- What an instruction does that does not fail. -/
def Instruction.effect [RandomSource R] (m : Machine R) : Instruction → Machine R
  | .clear => { m with screen := .blank, frameReady := true }
  | .ret => { m with pc := m.stack.headD 0, stack := m.stack.tail }
  | .native _ => m
  | .jump target => { m with pc := target }
  | .call target => { m with stack := m.pc :: m.stack, pc := target }
  | .skipIfByte x nn => m.skip (m.v.get x = nn)
  | .skipUnlessByte x nn => m.skip (m.v.get x ≠ nn)
  | .skipIfEqual x y => m.skip (m.v.get x = m.v.get y)
  | .skipUnlessEqual x y => m.skip (m.v.get x ≠ m.v.get y)
  | .setByte x nn => m.setV x nn
  | .addByte x nn => m.setV x (m.v.get x + nn)
  | .combine op x y => m.combine op x y
  | .setIndex target => { m with index := target }
  | .jumpOffset target => { m with pc := target + (m.v.get (m.offsetRegister target)).toNat }
  | .random x nn => m.random x nn
  | .draw x y n =>
      { m.setFlag (m.screen.meets (m.sprite x y n)) with
        screen := m.screen.xor (m.sprite x y n)
        frameReady := true }
  | .skipIfHeld x => m.skip (m.keys.isHeld (m.v.get x).toNat)
  | .skipUnlessHeld x => m.skip (!m.keys.isHeld (m.v.get x).toNat)
  | .getDelay x => m.setV x m.delay
  | .awaitKey x =>
      match m.keys.lowest? with
      | some key => m.setV x (.ofNat key)
      | none => { m with pc := m.pc - 2 }
  | .setDelay x => { m with delay := m.v.get x }
  | .setSound x => { m with sound := m.v.get x }
  | .addIndex x =>
      let grown := { m with index := m.index + (m.v.get x).toNat }
      if m.flagsIndex x then grown.setFlag true else grown
  | .pointGlyph x => { m with index := Glyph.address (m.v.get x) }
  | .storeDecimal x => { m with memory := m.memory.patch m.index (Machine.decimals (m.v.get x)) }
  | .storeRegisters x =>
      Machine.pass { m with memory := m.memory.patch m.index (m.v.toList.take (x + 1)) } x
  | .loadRegisters x =>
      let bytes := m.memory.bytesFrom m.index (x + 1)
      Machine.pass { m with v := .ofFn fun i : Fin 16 => bytes[i.val]?.getD (m.v.get i) } x

/-! ## What is left alone

What is not written as one change of the machine is one all the same, of the
registers named here. -/

/-- The instructions that work on nothing but registers, timers and random bytes. -/
def Instruction.OnRegisters : Instruction → Prop
  | .clear | .ret | .call _ | .draw _ _ _ | .storeDecimal _ | .storeRegisters _ => False
  | _ => True

section Frames
variable (m : Machine R)

theorem Instruction.spoil_eq (i : Instruction) : i.spoil m = { m with v := (i.spoil m).v } := by
  cases i <;> rfl

theorem Machine.combine_eq (op : Operation) (x y : Fin 16) :
    m.combine op x y = { m with v := (m.combine op x y).v } := by
  cases op <;> rfl

variable [RandomSource R]

theorem Instruction.effect_addIndex (x : Fin 16) :
    Instruction.effect m (.addIndex x) =
      { m with
        v := (Instruction.effect m (.addIndex x)).v
        index := m.index + (m.v.get x).toNat } := by
  simp only [Instruction.effect]
  cases m.flagsIndex x <;> rfl

/-- All but six instructions leave memory, the stack and the screen alone. -/
theorem Instruction.effect_onRegisters {i : Instruction} (hi : i.OnRegisters) :
    i.effect m = { m with
      pc := (i.effect m).pc
      v := (i.effect m).v
      index := (i.effect m).index
      delay := (i.effect m).delay
      sound := (i.effect m).sound
      source := (i.effect m).source } := by
  cases i with
  | clear | ret | call _ | draw _ _ _ | storeDecimal _ | storeRegisters _ => exact hi.elim
  | combine op _ _ => cases op <;> rfl
  | awaitKey x =>
      simp only [Instruction.effect]
      cases m.keys.lowest? <;> rfl
  | addIndex x =>
      simp only [Instruction.effect]
      cases m.flagsIndex x <;> rfl
  | _ => rfl

end Frames

/-! ## Executing -/

namespace Instruction

theorem rangeCause?_of_le {addr len : Nat} (h : addr + len ≤ Memory.size) :
    rangeCause? addr len = none :=
  if_neg (Nat.not_lt.mpr h)

theorem rangeCause?_of_lt {addr len : Nat} (h : Memory.size < addr + len) :
    rangeCause? addr len = some (.outOfBounds (max addr Memory.size)) :=
  if_pos h

end Instruction

namespace Machine

@[simp] theorem get_setV (m : Machine R) (x : Fin 16) (b : UInt8) : (m.setV x b).v.get x = b :=
  Vector.getElem_set_self _

theorem get_setV_of_ne (m : Machine R) {x y : Fin 16} (h : x ≠ y) (b : UInt8) :
    (m.setV x b).v.get y = m.v.get y :=
  Vector.getElem_set_ne x.isLt y.isLt fun hval => h (Fin.ext hval)

theorem setFlag_setFlag (m : Machine R) (b c : Bool) :
    (m.setFlag b).setFlag c = m.setFlag c := by
  simp [setFlag, setV, Vector.set_set]

theorem length_registers (m : Machine R) (x : Fin 16) :
    (m.v.toList.take (x + 1)).length = x + 1 := by
  rw [List.length_take, Vector.length_toList]
  exact Nat.min_eq_left x.isLt

theorem goto_of_lt (m : Machine R) {addr : Nat} (h : addr < 0x10000) :
    m.goto addr = .done () { m with pc := addr } :=
  if_pos h

theorem skipIf_eq (m : Machine R) (b : Bool) (h : m.pc + 2 < 0x10000) :
    m.skipIf b = .done () (m.skip b) := by
  cases b with
  | false => rfl
  | true => exact m.goto_of_lt h

theorem passTransfer_eq (m : Machine R) (x : Fin 16) (h : m.index + (x + 1) < 0x10000) :
    m.passTransfer x = .done () (m.pass x) := by
  unfold passTransfer pass
  cases m.settings.dialect.advancesIndex with
  | false => rfl
  | true => exact if_pos h

variable [RandomSource R]

/-- Executes the instructions with a range, given what they do if it fits. -/
theorem execute_span {m : Machine R} {i : Instruction} {len : Nat} (hspan : i.span? = some len)
    (hfits : m.index + len ≤ Memory.size → m.execute i = .done () (i.effect m))
    (hsticks : Memory.size < m.index + len →
      m.execute i = .raise (.outOfBounds (max m.index Memory.size)) (i.spoil m)) :
    m.execute i = match i.span?.bind (Instruction.rangeCause? m.index) with
      | some c => .raise c (i.spoil m)
      | none => .done () (i.effect m) := by
  rw [hspan, Option.bind_some]
  rcases Nat.lt_or_ge Memory.size (m.index + len) with hlt | hfit
  · rw [Instruction.rangeCause?_of_lt hlt]
    exact hsticks hlt
  · rw [Instruction.rangeCause?_of_le hfit]
    exact hfits hfit

theorem draw_of_le (m : Machine R) (x y : Fin 16) {n : Fin 16} (h : m.index + n ≤ Memory.size) :
    m.draw x y n = .done () (Instruction.effect m (.draw x y n)) := by
  have hslice : (m.setFlag false).memory.slice (m.setFlag false).index n =
      .ok (m.memory.bytesFrom m.index n) := m.memory.slice_of_le h
  simp only [draw, hslice, setFlag_setFlag]
  rfl

theorem storeRegisters_of_le (m : Machine R) {x : Fin 16} (h : m.index + (x + 1) ≤ Memory.size) :
    m.storeRegisters x = .done () (Instruction.effect m (.storeRegisters x)) := by
  have hfits : m.index + (m.v.toList.take (x + 1)).length ≤ Memory.size := by
    rw [length_registers]
    exact h
  rw [storeRegisters, Memory.fill_of_le _ hfits]
  exact passTransfer_eq _ x (Nat.lt_of_le_of_lt h (by decide))

theorem loadRegisters_of_le (m : Machine R) {x : Fin 16} (h : m.index + (x + 1) ≤ Memory.size) :
    m.loadRegisters x = .done () (Instruction.effect m (.loadRegisters x)) := by
  rw [loadRegisters, Memory.slice_of_le _ h]
  exact passTransfer_eq _ x (Nat.lt_of_le_of_lt h (by decide))

/-- An instruction either fails, and leaves the spoiled machine, or has its effect. -/
theorem execute_eq {m : Machine R} (hm : m.Ready) (i : Instruction) :
    m.execute i = match i.cause? m with
      | some c => .raise c (i.spoil m)
      | none => .done () (i.effect m) := by
  have hpc := hm.pc_le
  have hindex := hm.index_lt
  rw [Memory.size_eq] at hpc
  have hskip : m.pc + 2 < 0x10000 := by omega
  cases i with
  | clear | native _ | jump _ | setByte _ _ | addByte _ _ | combine _ _ _ | setIndex _
  | random _ _ | getDelay _ | setDelay _ | setSound _ | pointGlyph _ => rfl
  | skipIfByte _ _ | skipUnlessByte _ _ | skipIfEqual _ _ | skipUnlessEqual _ _
  | skipIfHeld _ | skipUnlessHeld _ => exact m.skipIf_eq _ hskip
  | ret =>
      cases h : m.stack with
      | nil => simp [execute, ret, Instruction.cause?, Instruction.spoil, h]
      | cons addr rest => simp [execute, ret, Instruction.cause?, Instruction.effect, h]
  | call target =>
      by_cases h : m.stack.length = stackDepth
      · simp [execute, call, Instruction.cause?, Instruction.spoil, h]
      · simp [execute, call, Instruction.cause?, Instruction.effect, h]
  | jumpOffset target =>
      show m.goto (target.val + (m.v.get (m.offsetRegister target)).toNat) = _
      have := (m.v.get (m.offsetRegister target)).toNat_lt
      have := target.isLt
      exact m.goto_of_lt (by omega)
  | awaitKey x =>
      show m.awaitKey x = .done () (Instruction.effect m (.awaitKey x))
      unfold awaitKey Instruction.effect
      cases m.keys.lowest? with
      | some key => rfl
      | none => exact if_pos hm.two_le_pc
  | addIndex x =>
      by_cases h : m.index + (m.v.get x).toNat < 0x10000
      · simp only [execute, addIndex, Instruction.cause?, Instruction.effect, if_pos h]
        cases hflag : m.flagsIndex x with
        | false => exact if_neg (Bool.eq_false_iff.mp hflag)
        | true => exact if_pos hflag
      · simp only [execute, addIndex, Instruction.cause?, Instruction.spoil, if_neg h]
  | draw x y n =>
      refine execute_span rfl ?_ ?_
      · intro h
        exact m.draw_of_le x y h
      · intro h
        have hwide : m.index + n < UInt64.size := Memory.lt_uint64 (by omega)
        have hslice : (m.setFlag false).memory.slice (m.setFlag false).index n =
            .error (.raised (.outOfBounds (max m.index Memory.size))) :=
          m.memory.slice_of_lt h hwide
        simp only [execute, draw, hslice]
        rfl
  | storeDecimal x =>
      refine execute_span rfl ?_ ?_
      · intro h
        simp only [execute, storeDecimal]
        rw [Memory.fill_of_le _ h]
        rfl
      · intro h
        have hwide : m.index + 3 < UInt64.size := Memory.lt_uint64 (by omega)
        simp only [execute, storeDecimal]
        rw [Memory.fill_of_lt _ h hwide]
        rfl
  | storeRegisters x =>
      have hlen := m.length_registers x
      refine execute_span rfl ?_ ?_
      · intro h
        exact m.storeRegisters_of_le h
      · intro h
        have hwide : m.index + (x + 1) < UInt64.size := Memory.lt_uint64 (by omega)
        simp only [execute, storeRegisters]
        rw [Memory.fill_of_lt _ (hlen.symm ▸ h) (hlen.symm ▸ hwide)]
        rfl
  | loadRegisters x =>
      refine execute_span rfl ?_ ?_
      · intro h
        exact m.loadRegisters_of_le h
      · intro h
        have hwide : m.index + (x + 1) < UInt64.size := Memory.lt_uint64 (by omega)
        simp only [execute, loadRegisters]
        rw [Memory.slice_of_lt _ h hwide]
        rfl

end Machine

/-! ## Failing, ready or not

A sum that leaves its width is no failure that is reported.  So whatever reports one has
come to it before anything was changed. -/

namespace Machine

theorem goto_ne_raised (m : Machine R) (addr : Nat) (c : Cause) :
    (m.goto addr).result ≠ .error (.raised c) := by
  intro h
  unfold goto at h
  split at h <;> cases h

theorem skipIf_ne_raised (m : Machine R) (b : Bool) (c : Cause) :
    (m.skipIf b).result ≠ .error (.raised c) := by
  intro h
  cases b with
  | false => cases h
  | true => exact m.goto_ne_raised (m.pc + 2) c h

theorem passTransfer_ne_raised (m : Machine R) (x : Fin 16) (c : Cause) :
    (m.passTransfer x).result ≠ .error (.raised c) := by
  intro h
  unfold passTransfer at h
  split at h
  · dsimp only at h
    split at h <;> cases h
  · cases h

variable [RandomSource R]

theorem execute_of_raised {m : Machine R} {i : Instruction} {c : Cause}
    (h : (m.execute i).result = .error (.raised c)) : m.execute i = .raise c (i.spoil m) := by
  cases i with
  | clear | native _ | jump _ | setByte _ _ | addByte _ _ | combine _ _ _ | setIndex _
  | random _ _ | getDelay _ | setDelay _ | setSound _ | pointGlyph _ => cases h
  | skipIfByte _ _ | skipUnlessByte _ _ | skipIfEqual _ _ | skipUnlessEqual _ _
  | skipIfHeld _ | skipUnlessHeld _ => exact absurd h (m.skipIf_ne_raised _ c)
  | jumpOffset _ => exact absurd h (m.goto_ne_raised _ c)
  | ret =>
      simp only [execute, ret] at h ⊢
      cases hstack : m.stack with
      | nil => rw [hstack] at h; cases h; rfl
      | cons _ _ => rw [hstack] at h; cases h
  | call _ =>
      simp only [execute, call] at h ⊢
      split at h
      · next hfull => cases h; exact if_pos hfull
      · cases h
  | awaitKey _ =>
      simp only [execute, awaitKey] at h
      split at h
      · cases h
      · split at h <;> cases h
  | addIndex x =>
      simp only [execute, addIndex] at h ⊢
      split at h
      · split at h <;> cases h
      · next hsum => cases h; exact if_neg hsum
  | draw x y n =>
      simp only [execute, draw] at h ⊢
      cases hslice : (m.setFlag false).memory.slice (m.setFlag false).index n with
      | error e => rw [hslice] at h; cases h; rfl
      | ok _ => rw [hslice] at h; cases h
  | storeDecimal x =>
      simp only [execute, storeDecimal] at h ⊢
      cases hfill : m.memory.fill m.index (decimals (m.v.get x)) with
      | error e => rw [hfill] at h; cases h; rfl
      | ok _ => rw [hfill] at h; cases h
  | storeRegisters x =>
      simp only [execute, storeRegisters] at h ⊢
      cases hfill : m.memory.fill m.index (m.v.toList.take (x + 1)) with
      | error e => rw [hfill] at h; cases h; rfl
      | ok _ => rw [hfill] at h; exact absurd h (passTransfer_ne_raised _ x c)
  | loadRegisters x =>
      simp only [execute, loadRegisters] at h ⊢
      cases hslice : m.memory.slice m.index (x + 1) with
      | error e => rw [hslice] at h; cases h; rfl
      | ok _ => rw [hslice] at h; exact absurd h (passTransfer_ne_raised _ x c)

end Machine

/-! ## What is left to others

The keys, the settings and the status are nobody's business here, ready or not.  The
random source is that of CXNN alone, and each timer that of one instruction. -/

/-- What an instruction leaves of the random source. -/
def Instruction.spend [RandomSource R] (source : R) : Instruction → R
  | .random _ _ => (RandomSource.next source).2
  | _ => source

inductive Timer where
  | delay
  | sound

def Machine.timer (m : Machine R) : Timer → UInt8
  | .delay => m.delay
  | .sound => m.sound

/-- What an instruction sets a timer to, if it does: FX15 the one, FX18 the other. -/
def Instruction.sets? (m : Machine R) : Timer → Instruction → Option UInt8
  | .delay, .setDelay x => some (m.v.get x)
  | .sound, .setSound x => some (m.v.get x)
  | _, _ => none

namespace Machine

theorem goto_state (m : Machine R) (addr : Nat) :
    (m.goto addr).state = { m with pc := (m.goto addr).state.pc } := by
  unfold goto
  split <;> rfl

theorem skipIf_state (m : Machine R) (b : Bool) :
    (m.skipIf b).state = { m with pc := (m.skipIf b).state.pc } := by
  cases b with
  | false => rfl
  | true => exact m.goto_state _

theorem passTransfer_state (m : Machine R) (x : Fin 16) :
    (m.passTransfer x).state = { m with index := (m.passTransfer x).state.index } := by
  unfold passTransfer
  split
  · dsimp only
    split <;> rfl
  · rfl

variable [RandomSource R]

/-- Ready or not, an instruction leaves the keys, the settings and the status alone,
takes at most one byte from the random source, and sets at most one timer. -/
theorem execute_state (i : Instruction) (m : Machine R) :
    (m.execute i).state = { (m.execute i).state with
      delay := (i.sets? m .delay).getD m.delay
      sound := (i.sets? m .sound).getD m.sound
      keys := m.keys
      settings := m.settings
      source := i.spend m.source
      status := m.status } := by
  cases i with
  | skipIfByte _ _ | skipUnlessByte _ _ | skipIfEqual _ _ | skipUnlessEqual _ _
  | skipIfHeld _ | skipUnlessHeld _ =>
      simp only [execute]
      rw [skipIf_state]
      rfl
  | jumpOffset target =>
      simp only [execute, jumpOffset]
      rw [goto_state]
      rfl
  | combine op x y =>
      simp only [execute]
      rw [combine_eq]
      rfl
  | ret =>
      simp only [execute, ret]
      split <;> rfl
  | call target =>
      simp only [execute, call]
      split <;> rfl
  | awaitKey x =>
      simp only [execute, awaitKey]
      split
      · rfl
      · split <;> rfl
  | addIndex x =>
      simp only [execute, addIndex]
      split
      · split <;> rfl
      · rfl
  | draw x y n =>
      simp only [execute, draw]
      split <;> rfl
  | storeDecimal x =>
      simp only [execute, storeDecimal]
      split <;> rfl
  | storeRegisters x =>
      simp only [execute, storeRegisters]
      split
      · rfl
      · rw [passTransfer_state]
        rfl
  | loadRegisters x =>
      simp only [execute, loadRegisters]
      split
      · rfl
      · rw [passTransfer_state]
        rfl
  | _ => rfl

end Machine

end Chip8
