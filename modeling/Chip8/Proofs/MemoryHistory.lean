/-
# `Chip8.Proofs.MemoryHistory` — a byte is what was last written there

Only two instructions write to memory: FX33 writes three bytes from I on, and
FX55 writes X + 1 (`Execution.written?`).

    FX33   I ≤ a < I + 3       hundreds, tens or units of VX
    FX55   I ≤ a < I + X + 1   V0 to VX, the first at I

I and the registers are those at the time.  So since a load every byte is what
the last of these executions to reach it wrote there, and if none did, what the
load put there (`byteAt_eq_last_written`).  A step that fails executes nothing,
and writes nothing.
-/
import Chip8.Host.Terminal
import Chip8.Proofs.History
import Chip8.Proofs.Loading
import Chip8.Proofs.OpcodeTable

namespace Chip8

/-! ## Writing, execution by execution -/

/-- A number below a thousand: its hundreds, its tens, its units. -/
def digitOf (n : Nat) : Nat → UInt8
  | 0 => .ofNat (n / 100)
  | 1 => .ofNat (n / 10 % 10)
  | _ => .ofNat (n % 10)

section Written
variable {R : Type}

/-- What an execution makes of the memory. -/
def Memory.stored (mem : Memory) (e : Execution R) : Memory :=
  match e.instruction with
  | .storeDecimal x => mem.patch e.before.index (Machine.decimals (e.before.v.get x))
  | .storeRegisters x => mem.patch e.before.index (e.before.v.toList.take (x + 1))
  | _ => mem

/-- The byte that an execution writes to the address `a`, if it writes one. -/
def Execution.written? (a : Nat) (e : Execution R) : Option UInt8 :=
  let first := e.before.index
  match e.instruction with
  | .storeDecimal x =>
      if first ≤ a ∧ a < first + 3 then some (digitOf (e.before.v.get x).toNat (a - first))
      else none
  | .storeRegisters x =>
      if first ≤ a ∧ a < first + x + 1 then e.before.v.toList[a - first]? else none
  | _ => none

theorem getD_decimals (b : UInt8) {k : Nat} (hk : k < 3) :
    (Machine.decimals b).getD k 0 = digitOf b.toNat k := by
  rw [Machine.decimals_eq]
  match k with
  | 0 | 1 | 2 => rfl

theorem byteAt_stored (mem : Memory) (e : Execution R) {a : Nat} (ha : a < Memory.size) :
    (mem.stored e).byteAt a = (e.written? a).getD (mem.byteAt a) := by
  obtain ⟨m, i⟩ := e
  cases i with
  | storeDecimal x =>
      simp only [Memory.stored, Execution.written?]
      rw [Memory.byteAt_patch_eq_ite _ _ _ ha, show (Machine.decimals _).length = 3 from rfl]
      split
      · next h => exact getD_decimals _ (Nat.sub_lt_left_of_lt_add h.1 h.2)
      · rfl
  | storeRegisters x =>
      simp only [Memory.stored, Execution.written?]
      rw [Memory.byteAt_patch_eq_ite _ _ _ ha, m.length_registers x, ← Nat.add_assoc]
      split
      · next h =>
          have hk : a - m.index < x + 1 := Nat.sub_lt_left_of_lt_add h.1 h.2
          have hv : a - m.index < m.v.toList.length := by
            rw [Vector.length_toList]
            exact Nat.lt_of_lt_of_le hk x.isLt
          rw [List.getD_eq_getElem?_getD, List.getElem?_take_of_lt hk,
            List.getElem?_eq_getElem hv]
          rfl
      · rfl
  | _ => rfl

/-- Along a history, the last byte written counts. -/
theorem byteAt_foldl_stored {a : Nat} (ha : a < Memory.size) (mem : Memory)
    (executions : List (Execution R)) :
    (executions.foldl Memory.stored mem).byteAt a =
      (executions.reverse.findSome? (Execution.written? a)).getD (mem.byteAt a) := by
  induction executions generalizing mem with
  | nil => rfl
  | cons e executions ih =>
      rw [List.foldl_cons, ih, byteAt_stored mem e ha, List.reverse_cons, List.findSome?_append]
      cases executions.reverse.findSome? (Execution.written? a) with
      | some b => rfl
      | none => simp

end Written

/-! ## The memory follows -/

section Runs
variable {R H : Type} [RandomSource R] [Host H]

theorem memory_effect (m : Machine R) (i : Instruction) :
    (i.effect m.past).memory = m.memory.stored ⟨m, i⟩ := by
  cases i with
  | clear | ret | call _ | draw _ _ _ | storeDecimal _ | storeRegisters _ => rfl
  | _ =>
      rw [Instruction.effect_onRegisters]
      · rfl
      · trivial

theorem memory_follows : Follows (Machine.memory (R := R)) Memory.stored where
  setKeys _ _ := rfl
  takeFrame _ := rfl
  countDown _ := rfl
  halt _ _ := rfl
  past _ := rfl
  spoil _ i := by cases i <;> rfl
  effect m i _ _ := memory_effect m i

/-- Since a load, a byte is what was last written to it, or else what the load put
there; and a step that fails writes nothing. -/
theorem byteAt_eq_last_written {m : Machine R} {rom : List UInt8} (hrom : rom.length ≤ 3584)
    {calls : List (Call H)} (hcalls : ∀ c ∈ calls, ¬c.Loads) :
    let start := (m.load rom).state
    let final := after calls start
    (∀ a < 4096, final.memory.byteAt a =
      ((history calls start).reverse.findSome? (Execution.written? a)).getD
        (Memory.layout rom a)) ∧
    ∀ m' : Machine R, m'.InBounds → ∀ e, m'.step.result = .error e →
      m'.step.state.memory = m'.memory := by
  intro start final
  have hstart : start = m.loaded rom := by
    rw [show start = (m.load rom).state from rfl, m.load_of_le hrom]
  constructor
  · intro a ha
    have hin : start.InBounds := hstart ▸ inBounds_loaded rom m
    rw [show final.memory = _ from memory_follows.after hin hcalls, byteAt_foldl_stored ha,
      hstart, byteAt_loaded_eq_layout m rom ha]
  · intro m' hm' e he
    rw [memory_follows.step hm', Machine.executes_of_error he]
    rfl

/-- A200 F055 writes V0 over the first byte of the program, and over no other. -/
theorem byteAt_eq_last_written_of_store :
    let start := ((Machine.idle {} (⟨0, 1⟩ : Counter)).load [0xA2, 0x00, 0xF0, 0x55]).state
    let final := after ([.step, .setKey 5 true, .step] : List (Call Terminal)) start
    final.memory.byteAt 0x200 = 0x00 ∧ final.memory.byteAt 0x202 = 0xF0 := by
  have hrom : [(0xA2 : UInt8), 0x00, 0xF0, 0x55].length ≤ 3584 := by decide
  have hcalls : ∀ c ∈ ([.step, .setKey 5 true, .step] : List (Call Terminal)), ¬c.Loads := by
    decide
  have hlaw := byteAt_eq_last_written (m := .idle {} (⟨0, 1⟩ : Counter)) hrom hcalls
  -- left as definitions, the machines would be computed when the two are compared
  dsimp only at hlaw ⊢
  obtain ⟨hbyte, -⟩ := hlaw
  let loaded := (Machine.idle {} (⟨0, 1⟩ : Counter)).loaded [0xA2, 0x00, 0xF0, 0x55]
  have hload : ((Machine.idle {} (⟨0, 1⟩ : Counter)).load [0xA2, 0x00, 0xF0, 0x55]).state = loaded :=
    by rw [Machine.load_of_le _ hrom]
  have hpc : loaded.pc + 2 + 2 ≤ Memory.size := show 0x200 + 2 + 2 ≤ 0x1000 by decide
  have hset : loaded.nextWord.Spells (.setIndex 0x200) :=
    Machine.spells_loaded (k := 0) _ (by decide) rfl rfl ⟨rfl, rfl⟩
  have hstore : (loaded.memory.wordAt (loaded.pc + 2)).Spells (.storeRegisters 0) :=
    Machine.spells_loaded (k := 2) _ (by decide) rfl rfl ⟨rfl, rfl, rfl⟩
  let next := { loaded with pc := loaded.pc + 2, index := 0x200, keys := loaded.keys.set 5 true }
  have hhistory : history ([.step, .setKey 5 true, .step] : List (Call Terminal)) loaded =
      [⟨loaded, .setIndex 0x200⟩, ⟨next, .storeRegisters 0⟩] :=
    history_of_setIndex (inBounds_loaded _ _) rfl hpc hset hstore 5 true
      (show Instruction.rangeCause? 0x200 1 = none from Instruction.rangeCause?_of_le (by decide))
  have hwritten : Execution.written? 0x200 ⟨next, .storeRegisters 0⟩ = some 0 := rfl
  have hkept : Execution.written? 0x202 ⟨next, .storeRegisters 0⟩ = none := rfl
  rw [hbyte 0x200 (by decide), hbyte 0x202 (by decide), hload, hhistory]
  simp only [List.reverse_cons, List.reverse_nil, List.nil_append,
    List.singleton_append, List.findSome?_cons, hwritten, hkept]
  exact ⟨rfl, rfl⟩

end Runs

end Chip8
