/-
# `Chip8.Proofs.Checked` — no index is out of range

The library's operations are total: there is a zero past the end of memory,
what is written there is lost, and pixels are counted around the edges.  Here
the operations that index are written once more on plain arrays, and an index
or a range that is not there has no answer (`none`):

    cut?       a range of an array
    paste?     the same range overwritten by just as many elements
    lit?, flip?    one pixel (`Chip8.Proofs.Drawing`)

From these, `slice?`, `word?` and `fill?` of memory, the transfers between
memory and registers, drawing, loading, and with them every call
(`Call.perform?`).  Each answers, and what it answers is what the total
operation does (`perform?_eq`): nothing in the library leans on what totality
makes up.  With the bounds of `Chip8.Proofs.Step` this makes every use of a
machine safe (`safe_after`).
-/
import Chip8.Proofs.Calls
import Chip8.Proofs.Drawing

namespace Chip8

/-! ## Ranges of arrays -/

section Arrays
variable {α : Type} {n : Nat}

/-- The elements from `start` to before `stop`, if there are such. -/
def cut? (v : Vector α n) (start stop : Nat) : Option (List α) :=
  if h : start ≤ stop ∧ stop ≤ n then
    some (List.ofFn fun i : Fin (stop - start) => v[start + i.val])
  else none

/-- Overwrites the elements from `start` to before `stop`, if there are such and
`data` has as many. -/
def paste? (v : Vector α n) (start stop : Nat) (data : List α) : Option (Vector α n) :=
  if h : start ≤ stop ∧ stop ≤ n ∧ data.length = stop - start then
    some (.ofFn fun i =>
      if hi : start ≤ i.val ∧ i.val < stop then data.get ⟨i.val - start, by omega⟩ else v[i])
  else none

end Arrays

/-! ## Memory -/

namespace Memory

def slice? (m : Memory) (addr len : Nat) : Option (Except (Stop Cause) (List UInt8)) :=
  match checkRange addr len with
  | .error e => some (.error e)
  | .ok () => (cut? m.bytes addr (addr + len)).map .ok

def word? (m : Memory) (addr : Nat) : Option (Except (Stop Cause) Word) := do
  match ← m.slice? addr 2 with
  | .error e => some (.error e)
  | .ok bytes => some (.ok (Word.ofBytes (← bytes[0]?) (← bytes[1]?)))

/-- Overwrites the `len` bytes from `addr` on. -/
def fill? (m : Memory) (addr len : Nat) (data : List UInt8) :
    Option (Except (Stop Cause) Memory) :=
  match checkRange addr len with
  | .error e => some (.error e)
  | .ok () => (paste? m.bytes addr (addr + len) data).map fun bytes => .ok ⟨bytes⟩

def blank? : Option Memory :=
  (paste? (.replicate 0x1000 0) Glyph.base (Glyph.base + Glyph.table.length) Glyph.table).map
    Memory.mk

def ofProgram? (rom : List UInt8) : Option (Except Cause Memory) :=
  if programRoom < rom.length then some (.error (.romTooLarge rom.length programRoom))
  else do
    let memory ← blank?
    let bytes ← paste? memory.bytes programStart (programStart + rom.length) rom
    some (.ok ⟨bytes⟩)

variable (m : Memory)

theorem cut?_bytes {addr len : Nat} (h : addr + len ≤ size) :
    cut? m.bytes addr (addr + len) = some ((List.range len).map fun k => m.byteAt (addr + k)) := by
  have hsize := size_eq
  rw [cut?, dif_pos ⟨by omega, by omega⟩]
  congr 1
  refine List.ext_getElem (by simp) ?_
  intro k hk _
  have hlt : addr + k < 0x1000 := by simp at hk; omega
  simp [byteAt_of_lt m hlt]

theorem paste?_bytes {addr : Nat} {data : List UInt8} (h : addr + data.length ≤ size) :
    (paste? m.bytes addr (addr + data.length) data).map Memory.mk = some (m.patch addr data) := by
  have hsize := size_eq
  rw [paste?, dif_pos ⟨by omega, by omega, by omega⟩]
  refine congrArg some (ext_byteAt ?_)
  intro a ha
  rw [byteAt_patch data m addr ha, byteAt_of_lt _ (size_eq ▸ ha), byteAt_of_lt m (size_eq ▸ ha)]
  simp only [Vector.getElem_ofFn]
  rcases Nat.lt_or_ge a addr with hbefore | hle
  · simp [Nat.not_le.mpr hbefore]
  · rcases Nat.lt_or_ge a (addr + data.length) with hlt | hge
    · have hin : a - addr < data.length := by omega
      simp [hle, hlt, hin]
    · have hout : data.length ≤ a - addr := by omega
      simp [hle, Nat.not_lt.mpr hge, hout]

theorem slice?_eq (addr len : Nat) : m.slice? addr len = some (m.slice addr len) := by
  rcases checkRange_cases addr len with ⟨hfit, hc⟩ | ⟨-, -, hc⟩ | ⟨-, hc⟩
  · simp only [slice?, slice, hc, cut?_bytes m hfit]
    rfl
  all_goals simp only [slice?, slice, hc]

theorem word?_eq (addr : Nat) : m.word? addr = some (m.word addr) := by
  rcases checkRange_cases addr 2 with ⟨hfit, hc⟩ | ⟨-, -, hc⟩ | ⟨-, hc⟩
  · rw [word?, slice?_eq, slice_of_le m hfit, word_of_le m hfit]
    rfl
  all_goals
    simp only [word?, slice?_eq, slice, word, hc]
    rfl

theorem fill?_eq (addr : Nat) {len : Nat} {data : List UInt8} (hlen : data.length = len) :
    m.fill? addr len data = some (m.fill addr data) := by
  subst hlen
  rcases checkRange_cases addr data.length with ⟨hfit, hc⟩ | ⟨-, -, hc⟩ | ⟨-, hc⟩
  · have hpaste := paste?_bytes m hfit
    obtain ⟨bytes, hbytes, hpatch⟩ := Option.map_eq_some_iff.mp hpaste
    simp only [fill?, fill, hc, hbytes, ← hpatch]
    rfl
  all_goals simp only [fill?, fill, hc]

theorem blank?_eq : blank? = some blank :=
  paste?_bytes ⟨.replicate 0x1000 0⟩ (by decide)

theorem ofProgram?_eq (rom : List UInt8) : ofProgram? rom = some (ofProgram rom) := by
  rcases Nat.lt_or_ge programRoom rom.length with hlong | hle
  · simp only [ofProgram?, ofProgram, if_pos hlong]
  · have hfit : programStart + rom.length ≤ size := Nat.add_le_add_left hle programStart
    obtain ⟨bytes, hbytes, hpatch⟩ := Option.map_eq_some_iff.mp (paste?_bytes blank hfit)
    simp only [ofProgram?, ofProgram, if_neg (Nat.not_lt.mpr hle), blank?_eq, ← hpatch]
    simp [hbytes]

end Memory

/-! ## Going on -/

namespace Outcome

variable {ε σ α β : Type}

def andThen? (o : Outcome ε σ α) (f : α → σ → Option (Outcome ε σ β)) :
    Option (Outcome ε σ β) :=
  match o.result with
  | .error e => some ⟨.error e, o.state, o.log⟩
  | .ok a => (f a o.state).map fun next => ⟨next.result, next.state, o.log ++ next.log⟩

def repeated? (act : σ → Option (Outcome ε σ Unit)) :
    Nat → Outcome ε σ Unit → Option (Outcome ε σ Unit)
  | 0, o => some o
  | n + 1, o =>
      match o.result with
      | .error _ => some o
      | .ok () => (o.andThen? fun _ => act).bind (repeated? act n)

theorem andThen?_eq (o : Outcome ε σ α) {f? : α → σ → Option (Outcome ε σ β)}
    {f : α → σ → Outcome ε σ β} (hf : ∀ a s, f? a s = some (f a s)) :
    o.andThen? f? = some (o.andThen f) := by
  unfold andThen? andThen
  cases o.result with
  | error e => rfl
  | ok a => simp only [hf a o.state, Option.map_some]

theorem repeated?_eq {act? : σ → Option (Outcome ε σ Unit)} {act : σ → Outcome ε σ Unit}
    (hact : ∀ s, act? s = some (act s)) (n : Nat) (o : Outcome ε σ Unit) :
    repeated? act? n o = some (repeated act n o) := by
  induction n generalizing o with
  | zero => rfl
  | succ n ih =>
      unfold repeated? repeated
      cases o.result with
      | error e => rfl
      | ok _ =>
          simp only [o.andThen?_eq fun _ => hact, Option.bind_some]
          exact ih _

end Outcome

/-! ## Instructions -/

namespace Machine

variable {R : Type}

def draw? (m : Machine R) (x y n : Fin 16) : Option (Effect R) := do
  let left := (m.v.get x).toNat % Screen.width
  let top := (m.v.get y).toNat % Screen.height
  let m := m.setFlag false
  match ← m.memory.slice? m.index n with
  | .error e => some (.stop e m)
  | .ok rows =>
      let (hit, screen) ← Screen.drawRows? left top rows 0 (false, m.screen)
      some (.done () { m.setFlag hit with screen := screen, frameReady := true })

def storeDecimal? (m : Machine R) (x : Fin 16) : Option (Effect R) := do
  match ← m.memory.fill? m.index 3 (decimals (m.v.get x)) with
  | .error e => some (.stop e m)
  | .ok memory => some (.done () { m with memory := memory })

def storeRegisters? (m : Machine R) (x : Fin 16) : Option (Effect R) := do
  let registers ← cut? m.v 0 (x + 1)
  match ← m.memory.fill? m.index (x + 1) registers with
  | .error e => some (.stop e m)
  | .ok memory => some (passTransfer { m with memory := memory } x)

def loadRegisters? (m : Machine R) (x : Fin 16) : Option (Effect R) := do
  match ← m.memory.slice? m.index (x + 1) with
  | .error e => some (.stop e m)
  | .ok bytes =>
      let v ← paste? m.v 0 (x + 1) bytes
      some (passTransfer { m with v := v } x)

section Instructions
variable (m : Machine R)

theorem draw?_eq (x y n : Fin 16) : m.draw? x y n = some (m.draw x y n) := by
  simp only [draw?, draw, Memory.slice?_eq, Option.bind_eq_bind, Option.bind_some]
  cases (m.setFlag false).memory.slice (m.setFlag false).index n with
  | error e => rfl
  | ok rows => simp only [Screen.drawRows?_eq, Option.bind_some]

theorem storeDecimal?_eq (x : Fin 16) : m.storeDecimal? x = some (m.storeDecimal x) := by
  unfold storeDecimal? storeDecimal
  rw [Memory.fill?_eq _ _ (show (decimals (m.v.get x)).length = 3 from rfl)]
  cases m.memory.fill m.index (decimals (m.v.get x)) <;> rfl

theorem cut?_registers (x : Fin 16) : cut? m.v 0 (x + 1) = some (m.v.toList.take (x + 1)) := by
  rw [cut?, dif_pos ⟨Nat.zero_le _, by omega⟩]
  have hlen : (List.ofFn fun i : Fin (x.val + 1 - 0) => m.v[0 + i.val]).length = x + 1 :=
    List.length_ofFn
  refine congrArg some (List.ext_getElem (hlen.trans (m.length_registers x).symm) ?_)
  intro k _ _
  simp only [List.getElem_ofFn, List.getElem_take, Vector.getElem_toList, Nat.zero_add]

theorem storeRegisters?_eq (x : Fin 16) : m.storeRegisters? x = some (m.storeRegisters x) := by
  have hlen := m.length_registers x
  simp only [storeRegisters?, storeRegisters, cut?_registers, Option.bind_eq_bind,
    Option.bind_some, Memory.fill?_eq _ _ hlen]
  cases m.memory.fill m.index (m.v.toList.take (x + 1)) <;> rfl

theorem paste?_registers (x : Fin 16) {bytes : List UInt8} (hlen : bytes.length = x + 1) :
    paste? m.v 0 (x + 1) bytes =
      some (.ofFn fun i : Fin 16 => bytes[i.val]?.getD (m.v.get i)) := by
  rw [paste?, dif_pos ⟨Nat.zero_le _, by omega, hlen⟩]
  refine congrArg some (Vector.ext ?_)
  intro i hi
  simp only [Vector.getElem_ofFn]
  rcases Nat.lt_or_ge i (x + 1) with hlt | hge
  · have hin : i < bytes.length := hlen ▸ hlt
    simp [hlt, hin]
  · have hout : bytes.length ≤ i := hlen ▸ hge
    have hget : m.v.get ⟨i, hi⟩ = m.v[i] := rfl
    simp [Nat.not_lt.mpr hge, hout, hget]

theorem loadRegisters?_eq (x : Fin 16) : m.loadRegisters? x = some (m.loadRegisters x) := by
  unfold loadRegisters? loadRegisters
  rw [Memory.slice?_eq]
  rcases Memory.checkRange_cases m.index (x + 1) with ⟨hfit, -⟩ | ⟨-, -, hc⟩ | ⟨-, hc⟩
  · have hlen : ((List.range (x + 1)).map fun k => m.memory.byteAt (m.index + k)).length = x + 1 := by
      simp
    rw [Memory.slice_of_le _ hfit]
    simp only [Option.bind_eq_bind, Option.bind_some, paste?_registers m x hlen]
  all_goals simp only [Memory.slice, hc, Option.bind_eq_bind, Option.bind_some]

end Instructions

/-! ## Steps and frames -/

def load? (rom : List UInt8) (m : Machine R) : Option (Outcome Cause (Machine R) Unit) := do
  match ← Memory.ofProgram? rom with
  | .error cause => some (.raise cause m)
  | .ok memory =>
      some ⟨.ok (), { m.loaded rom with memory := memory }, #[.loaded rom.length Memory.programStart]⟩

def fetch? (m : Machine R) : Option (Outcome Cause (Machine R) Word) := do
  match ← m.memory.word? m.pc with
  | .error e => some (.stop e m)
  | .ok w =>
      if m.pc + 2 < 0x10000 then some ⟨.ok w, m.past, #[.fetched m.pc w]⟩
      else some ⟨.error .overflow, m, #[.fetched m.pc w]⟩

variable [RandomSource R]

def execute? (m : Machine R) : Instruction → Option (Effect R)
  | .draw x y n => m.draw? x y n
  | .storeDecimal x => m.storeDecimal? x
  | .storeRegisters x => m.storeRegisters? x
  | .loadRegisters x => m.loadRegisters? x
  | i => some (m.execute i)

def executeWord? (w : Word) (m : Machine R) : Option (Effect R) :=
  match Instruction.decode? w with
  | some i => m.execute? i
  | none => some (.raise (.unknownOpcode w) m)

def step? (m : Machine R) : Option (Outcome Fault (Machine R) Unit) :=
  match m.status with
  | .idle => some (.done () m)
  | .halted fault => some (.raise fault m)
  | .running => do
      let o ← m.fetch?
      return haltOnError m.pc (← o.andThen? executeWord?)

def frame? (m : Machine R) : Option (Outcome Fault (Machine R) Unit) :=
  match m.status with
  | .halted fault => some (.raise fault m)
  | _ => Outcome.repeated? step? m.settings.perFrame (.done () m.countDown)

section Steps
variable (m : Machine R)

omit [RandomSource R] in
theorem load?_eq (rom : List UInt8) : m.load? rom = some (m.load rom) := by
  simp only [load?, load, Memory.ofProgram?_eq, Option.bind_eq_bind, Option.bind_some]
  cases Memory.ofProgram rom <;> rfl

omit [RandomSource R] in
theorem fetch?_eq : m.fetch? = some m.fetch := by
  simp only [fetch?, fetch, Memory.word?_eq, Option.bind_eq_bind, Option.bind_some]
  cases m.memory.word m.pc with
  | error e => rfl
  | ok w =>
      by_cases h : m.pc + 2 < 0x10000
      · simp only [h, if_true]
        rfl
      · simp only [h, if_false]

theorem execute?_eq (i : Instruction) : m.execute? i = some (m.execute i) := by
  cases i with
  | draw x y n => exact m.draw?_eq x y n
  | storeDecimal x => exact m.storeDecimal?_eq x
  | storeRegisters x => exact m.storeRegisters?_eq x
  | loadRegisters x => exact m.loadRegisters?_eq x
  | _ => rfl

theorem executeWord?_eq (w : Word) : executeWord? w m = some (executeWord w m) := by
  unfold executeWord? executeWord
  cases Instruction.decode? w with
  | none => rfl
  | some i => exact m.execute?_eq i

theorem step?_eq : m.step? = some m.step := by
  unfold step? step
  cases m.status with
  | idle | halted _ => rfl
  | running =>
      simp only [fetch?_eq, Option.bind_eq_bind, Option.bind_some]
      rw [m.fetch.andThen?_eq fun w m => m.executeWord?_eq w]
      rfl

theorem frame?_eq : m.frame? = some m.frame := by
  unfold frame? frame
  cases m.status with
  | halted _ => rfl
  | idle | running => exact Outcome.repeated?_eq step?_eq _ _

end Steps

end Machine

/-! ## Calls -/

section Calls
variable {R H : Type} [RandomSource R] [Host H]

def Window.refresh? (keys : Keypad) (m : Machine R) :
    Option (Outcome Fault (Machine R) (Option Screen)) :=
  if m.isHalted then some (.done none m)
  else do
    let o ← (m.setKeys keys).frame?
    match o.result with
    | .error (.raised _) => some ⟨.ok none, o.state, o.log⟩
    | .error .overflow => some ⟨.error .overflow, o.state, o.log⟩
    | .ok () =>
        let (changed, machine) := o.state.takeFrame
        some ⟨.ok (if changed then some machine.screen else none), machine, o.log⟩

def Console.tick? (c : Console R H) : Option (Outcome Fault (Console R H) Unit) := do
  let (keys, host) := Host.keys c.host
  let o ← (c.machine.setKeys keys).frame?
  match o.result with
  | .error e => some ⟨.error e, ⟨o.state, host⟩, o.log⟩
  | .ok () =>
      let (changed, machine) := o.state.takeFrame
      let picture : Picture := ⟨machine.screen, changed, machine.soundOn⟩
      some ⟨.ok (), ⟨machine, Host.render picture host⟩, o.log⟩

/-- A call with every index checked. -/
def Call.perform? : Call H → Machine R → Option (Outcome Refusal (Machine R) Reply)
  | .load rom, m => (m.load? rom).map (.translate .notLoaded id fun () => .nothing)
  | .step, m => m.step?.map (.translate .stopped id fun () => .nothing)
  | .frame, m => m.frame?.map (.translate .stopped id fun () => .nothing)
  | .refresh keys, m => (Window.refresh? keys m).map (.translate .stopped id .shown)
  | .tick host, m =>
      (Console.tick? ⟨m, host⟩).map (.translate .stopped Console.machine fun () => .nothing)
  | c, m => some (c.perform m)

theorem refresh?_eq (keys : Keypad) (m : Machine R) :
    Window.refresh? keys m = some (Window.refresh keys m) := by
  simp only [Window.refresh?, Window.refresh, Machine.frame?_eq, Option.bind_eq_bind,
    Option.bind_some]
  cases m.isHalted with
  | true => rfl
  | false =>
      cases (m.setKeys keys).frame.result with
      | ok _ => rfl
      | error e => cases e <;> rfl

theorem tick?_eq (c : Console R H) : c.tick? = some c.tick := by
  simp only [Console.tick?, Console.tick, Machine.frame?_eq, Option.bind_eq_bind,
    Option.bind_some]
  cases (c.machine.setKeys (Host.keys c.host).1).frame.result <;> rfl

/-- No call asks for an index that is not there. -/
theorem perform?_eq (c : Call H) (m : Machine R) : c.perform? m = some (c.perform m) := by
  cases c with
  | load rom => exact congrArg (Option.map _) (m.load?_eq rom)
  | setKey _ _ | setKeys _ | takeFrame => rfl
  | step => exact congrArg (Option.map _) m.step?_eq
  | frame => exact congrArg (Option.map _) m.frame?_eq
  | refresh keys => exact congrArg (Option.map _) (refresh?_eq keys m)
  | tick host => exact congrArg (Option.map _) (tick?_eq ⟨m, host⟩)

/-- Whatever was asked of a machine, its registers are in bounds, and whatever is
asked of it next, every index is there and no sum of addresses leaves its width. -/
theorem safe_after (settings : Settings) (source : R) (calls : List (Call H)) :
    let m := after calls (.idle settings source)
    (m.pc ≤ 0x10FE ∧ m.stack.length ≤ 16 ∧ (∀ addr ∈ m.stack, 2 ≤ addr ∧ addr ≤ 4096) ∧
      m.index < 0x10000) ∧
    ∀ c : Call H, c.perform? m = some (c.perform m) ∧ (c.perform m).result ≠ .error .overflow := by
  intro m
  have hreach : Reachable H m := (Reachable.idle settings source).after calls
  have hm : m.InBounds := hreach.inBounds
  constructor
  · exact ⟨hm.pc_le, hm.stack_length_le, hm.stack_mem, hm.index_lt⟩
  · intro c
    exact ⟨perform?_eq c m, hm.perform_ne_overflow c⟩

end Calls

end Chip8
