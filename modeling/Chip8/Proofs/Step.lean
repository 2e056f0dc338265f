/-
# `Chip8.Proofs.Step` — what one step can be

Between instructions a machine keeps within bounds (`InBounds`): the program
counter is at most `0x10FE`, which is as far as BNNN jumps, the stack holds
at most sixteen addresses, each just past some word of memory, and I has
sixteen bits.  A step of a running machine within bounds is one of four
things (`step_cases`):

    unread     the word at pc is not all in memory: halted, pc stays
    unknown    the word spells no instruction:      halted, pc moved
    fails      the instruction has a cause to fail: halted, pc moved
    runs       the instruction has its effect

and the bounds hold again after each of them (`InBounds.step`).
-/
import Chip8.Machine.Step
import Chip8.Proofs.Decode
import Chip8.Proofs.Execute

namespace Chip8.Machine

variable {R : Type}

/-! ## Bounds -/

/-- The bounds kept between instructions. -/
structure InBounds (m : Machine R) : Prop where
  pc_le : m.pc ≤ 0x10FE
  stack_length_le : m.stack.length ≤ stackDepth
  stack_mem : ∀ addr ∈ m.stack, 2 ≤ addr ∧ addr ≤ Memory.size
  index_lt : m.index < 0x10000

section Bounds
variable {m m' : Machine R}

theorem InBounds.of_pc (hm : m.InBounds) (hpc : m'.pc ≤ 0x10FE) (hstack : m'.stack = m.stack)
    (hindex : m'.index = m.index) : m'.InBounds where
  pc_le := hpc
  stack_length_le := hstack ▸ hm.stack_length_le
  stack_mem := hstack ▸ hm.stack_mem
  index_lt := hindex ▸ hm.index_lt

theorem InBounds.of_index (hm : m.InBounds) (hpc : m'.pc = m.pc) (hstack : m'.stack = m.stack)
    (hindex : m'.index < 0x10000) : m'.InBounds where
  pc_le := hpc ▸ hm.pc_le
  stack_length_le := hstack ▸ hm.stack_length_le
  stack_mem := hstack ▸ hm.stack_mem
  index_lt := hindex

theorem InBounds.of_eq (hm : m.InBounds) (hpc : m'.pc = m.pc) (hstack : m'.stack = m.stack)
    (hindex : m'.index = m.index) : m'.InBounds :=
  hm.of_pc (hpc ▸ hm.pc_le) hstack hindex

/-! ## Reading the word -/

/-- The machine with its program counter past the word it points to. -/
def past (m : Machine R) : Machine R := { m with pc := m.pc + 2 }

theorem InBounds.ready_past (hm : m.InBounds) (hpc : m.pc + 2 ≤ Memory.size) : m.past.Ready where
  two_le_pc := Nat.le_add_left 2 m.pc
  pc_le := hpc
  index_lt := hm.index_lt

theorem InBounds.past (hm : m.InBounds) (hpc : m.pc + 2 ≤ Memory.size) : m.past.InBounds :=
  hm.of_pc (Nat.le_trans hpc (by decide)) rfl rfl

theorem fetch_of_le (h : m.pc + 2 ≤ Memory.size) :
    m.fetch = ⟨.ok (m.memory.wordAt m.pc), m.past, #[.fetched m.pc (m.memory.wordAt m.pc)]⟩ := by
  have hwide : m.pc + 2 < 0x10000 := Nat.lt_of_le_of_lt h (by decide)
  simp only [fetch, Memory.word_of_le _ h, if_pos hwide, Machine.past]

theorem InBounds.fetch_of_lt (hm : m.InBounds) (h : Memory.size < m.pc + 2) :
    m.fetch = .raise (.outOfBounds (max m.pc Memory.size)) m := by
  have hle : m.pc + 2 ≤ 0x20000 := by have := hm.pc_le; omega
  simp only [fetch, Memory.word_of_lt _ h (Memory.lt_uint64 hle)]
  rfl

/-- The word that the next instruction is read from. -/
def nextWord (m : Machine R) : Word := m.memory.wordAt m.pc

/-- The instruction that the next step comes to, whether or not it will fail. -/
def attempted? (m : Machine R) : Option Instruction :=
  if m.status = .running ∧ m.pc + 2 ≤ Memory.size then Instruction.decode? m.nextWord else none

theorem attempted?_eq_some_iff {i : Instruction} :
    m.attempted? = some i ↔ (m.status = .running ∧ m.pc + 2 ≤ Memory.size) ∧
      Instruction.decode? m.nextWord = some i := by
  unfold attempted?
  split
  · next h => simp only [h, true_and]
  · next h => simp [h]

theorem attempted?_of_le (hrun : m.status = .running) (hpc : m.pc + 2 ≤ Memory.size) :
    m.attempted? = Instruction.decode? m.nextWord :=
  if_pos ⟨hrun, hpc⟩

theorem attempted?_of_not_le (hpc : ¬m.pc + 2 ≤ Memory.size) : m.attempted? = none :=
  if_neg fun h => hpc h.2

theorem attempted?_of_not_running (hrun : m.status ≠ .running) : m.attempted? = none :=
  if_neg fun h => hrun h.1

theorem haltOnError_state (pc : Nat) (o : Effect R) :
    (haltOnError pc o).state = { o.state with status := (haltOnError pc o).state.status } := by
  unfold haltOnError
  split <;> rfl

/-! ## Effects keep the bounds -/

theorem InBounds.skip (hm : m.InBounds) (hr : m.Ready) (b : Bool) : (m.skip b).InBounds := by
  refine hm.of_pc ?_ rfl rfl
  have hpc := hr.pc_le
  rw [Memory.size_eq] at hpc
  cases b with
  | false => exact hm.pc_le
  | true => show m.pc + 2 ≤ 0x10FE; omega

theorem InBounds.pass (hm : m.InBounds) {x : Fin 16} (h : m.index + (x + 1) ≤ Memory.size) :
    (m.pass x).InBounds := by
  refine hm.of_index rfl rfl ?_
  unfold Machine.pass
  split
  · exact Nat.lt_of_le_of_lt h (by decide)
  · exact hm.index_lt

theorem InBounds.spoil (hm : m.InBounds) (i : Instruction) : (i.spoil m).InBounds := by
  cases i <;> exact hm.of_eq rfl rfl rfl

theorem le_size_of_span {i : Instruction} {len : Nat} (hspan : i.span? = some len)
    (hcause : i.span?.bind (Instruction.rangeCause? m.index) = none) :
    m.index + len ≤ Memory.size := by
  rw [hspan, Option.bind_some] at hcause
  apply Nat.le_of_not_lt
  intro h
  rw [Instruction.rangeCause?_of_lt h] at hcause
  cases hcause

theorem glyph_address_lt (b : UInt8) : Glyph.address b < 0x10000 := by
  unfold Glyph.address Glyph.base Glyph.height
  omega

variable [RandomSource R]

theorem InBounds.effect (hm : m.InBounds) (hr : m.Ready) {i : Instruction}
    (hcause : i.cause? m = none) : (i.effect m).InBounds := by
  cases i with
  | clear | native _ | setByte _ _ | addByte _ _ | random _ _ | draw _ _ _ | getDelay _
  | setDelay _ | setSound _ | storeDecimal _ => exact hm.of_eq rfl rfl rfl
  | combine op x y =>
      show (m.combine op x y).InBounds
      rw [m.combine_eq op x y]
      exact hm.of_eq rfl rfl rfl
  | skipIfByte _ _ | skipUnlessByte _ _ | skipIfEqual _ _ | skipUnlessEqual _ _
  | skipIfHeld _ | skipUnlessHeld _ => exact hm.skip hr _
  | jump target =>
      have := target.isLt
      exact hm.of_pc (show target.val ≤ 0x10FE by omega) rfl rfl
  | jumpOffset target =>
      -- an address of twelve bits and a byte
      have := target.isLt
      have := (m.v.get (m.offsetRegister target)).toNat_lt
      exact hm.of_pc (show target.val + (m.v.get (m.offsetRegister target)).toNat ≤ 0x10FE by omega) rfl rfl
  | setIndex target =>
      have := target.isLt
      exact hm.of_index rfl rfl (show target.val < 0x10000 by omega)
  | pointGlyph x => exact hm.of_index rfl rfl (glyph_address_lt _)
  | ret =>
      cases hstack : m.stack with
      | nil => simp [Instruction.cause?, hstack] at hcause
      | cons addr rest =>
          have hmem := hm.stack_mem
          have hlen := hm.stack_length_le
          rw [hstack] at hmem hlen
          have haddr := (hmem addr List.mem_cons_self).2
          constructor
          · simp only [Instruction.effect, hstack, List.headD_cons]
            exact Nat.le_trans haddr (by decide)
          · simp only [Instruction.effect, hstack, List.tail_cons]
            exact Nat.le_of_succ_le hlen
          · simp only [Instruction.effect, hstack, List.tail_cons]
            exact fun a ha => hmem a (List.mem_cons_of_mem _ ha)
          · exact hm.index_lt
  | call target =>
      have hfull : m.stack.length ≠ stackDepth := by
        intro h
        simp [Instruction.cause?, h] at hcause
      have := target.isLt
      constructor
      · show target.val ≤ 0x10FE
        omega
      · exact Nat.lt_of_le_of_ne hm.stack_length_le hfull
      · intro addr haddr
        rcases List.mem_cons.mp haddr with rfl | haddr
        · exact ⟨hr.two_le_pc, hr.pc_le⟩
        · exact hm.stack_mem addr haddr
      · exact hm.index_lt
  | awaitKey x =>
      unfold Instruction.effect
      cases m.keys.lowest? with
      | some key => exact hm.of_eq rfl rfl rfl
      | none => exact hm.of_pc (Nat.le_trans (Nat.sub_le _ _) hm.pc_le) rfl rfl
  | addIndex x =>
      by_cases hsum : m.index + (m.v.get x).toNat < 0x10000
      · rw [Instruction.effect_addIndex m x]
        exact hm.of_index rfl rfl hsum
      · simp only [Instruction.cause?, if_neg hsum] at hcause
        cases hcause
  | storeRegisters x =>
      have hfits := le_size_of_span (i := .storeRegisters x) rfl hcause
      refine InBounds.pass (m := { m with memory := _ }) ?_ hfits
      exact hm.of_eq rfl rfl rfl
  | loadRegisters x =>
      have hfits := le_size_of_span (i := .loadRegisters x) rfl hcause
      refine InBounds.pass (m := { m with v := _ }) ?_ hfits
      exact hm.of_eq rfl rfl rfl

/-! ## Steps -/

theorem step_of_idle (h : m.status = .idle) : m.step = .done () m := by
  rw [step, h]

theorem step_of_halted {fault : Fault} (h : m.status = .halted fault) :
    m.step = .raise fault m := by
  rw [step, h]

def halt (m : Machine R) (fault : Fault) : Machine R := { m with status := .halted fault }

/-- What the step of a running machine can be. -/
inductive StepCase (m : Machine R) : Prop where
  | unread (hpc : Memory.size < m.pc + 2)
      (hstep : let fault : Fault := ⟨m.pc, .outOfBounds (max m.pc Memory.size)⟩
        m.step = ⟨.error (.raised fault), m.halt fault, #[.halted fault]⟩)
  | unknown (hpc : m.pc + 2 ≤ Memory.size) (hword : m.nextWord.Unassigned)
      (hstep : let fault : Fault := ⟨m.pc, .unknownOpcode m.nextWord⟩
        m.step = ⟨.error (.raised fault), m.past.halt fault,
          #[.fetched m.pc m.nextWord, .halted fault]⟩)
  | fails (hpc : m.pc + 2 ≤ Memory.size) (i : Instruction) (hword : m.nextWord.Spells i)
      (c : Cause) (hcause : i.cause? m.past = some c)
      (hstep : let fault : Fault := ⟨m.pc, c⟩
        m.step = ⟨.error (.raised fault), (i.spoil m.past).halt fault,
          #[.fetched m.pc m.nextWord, .halted fault]⟩)
  | runs (hpc : m.pc + 2 ≤ Memory.size) (i : Instruction) (hword : m.nextWord.Spells i)
      (hcause : i.cause? m.past = none)
      (hstep : m.step = ⟨.ok (), i.effect m.past, #[.fetched m.pc m.nextWord]⟩)

theorem step_of_running (hrun : m.status = .running) :
    m.step = haltOnError m.pc (m.fetch.andThen executeWord) := by
  rw [step, hrun]

theorem executeWord_state (w : Word) (m : Machine R) :
    (executeWord w m).state = { (executeWord w m).state with
      delay := ((Instruction.decode? w).bind fun i => i.sets? m .delay).getD m.delay
      sound := ((Instruction.decode? w).bind fun i => i.sets? m .sound).getD m.sound
      keys := m.keys
      settings := m.settings
      source := (Instruction.decode? w).elim m.source fun i => i.spend m.source
      status := m.status } := by
  unfold executeWord
  cases Instruction.decode? w with
  | none => rfl
  | some i => exact execute_state i m

theorem executeWord_of_spells {w : Word} {i : Instruction} (hword : w.Spells i) (m : Machine R) :
    executeWord w m = m.execute i := by
  rw [executeWord, Instruction.decode?_eq_some_iff.mpr hword]

theorem fetch_andThen_status (m : Machine R) :
    (m.fetch.andThen executeWord).state.status = m.status := by
  unfold fetch
  split
  · rfl
  · split
    · show (executeWord _ m.past).state.status = m.status
      rw [executeWord_state]
      rfl
    · rfl

/-- Within bounds or not, a step leaves the status alone unless it halts the machine. -/
theorem step_status (m : Machine R) :
    m.step.state.status = m.status ∨ ∃ fault, m.step.state.status = .halted fault := by
  cases hstatus : m.status with
  | idle => exact .inl (by rw [step_of_idle hstatus]; exact hstatus)
  | halted fault => exact .inr ⟨fault, by rw [step_of_halted hstatus]; exact hstatus⟩
  | running =>
      have hstays := (fetch_andThen_status m).trans hstatus
      rw [step_of_running hstatus]
      unfold haltOnError
      split
      · exact .inl hstays
      · exact .inl hstays
      · exact .inr ⟨_, rfl⟩

theorem step_raised_iff (m : Machine R) (fault : Fault) :
    m.step.result = .error (.raised fault) ↔ m.step.state.status = .halted fault := by
  cases hstatus : m.status with
  | idle => simp [step_of_idle hstatus, hstatus]
  | halted fault => simp [step_of_halted hstatus, hstatus]
  | running =>
      have hstays := (fetch_andThen_status m).trans hstatus
      rw [step_of_running hstatus]
      unfold haltOnError
      split
      · simp [hstays]
      · simp [hstays]
      · simp

theorem step_status_of_ok {m : Machine R} (h : m.step.result = .ok ()) :
    m.step.state.status = m.status := by
  rcases m.step_status with hsame | ⟨fault, hhalted⟩
  · exact hsame
  · have hraised := (m.step_raised_iff fault).mpr hhalted
    rw [h] at hraised
    cases hraised

theorem step_of_lt (hm : m.InBounds) (hrun : m.status = .running)
    (hpc : Memory.size < m.pc + 2) :
    let fault : Fault := ⟨m.pc, .outOfBounds (max m.pc Memory.size)⟩
    m.step = ⟨.error (.raised fault), m.halt fault, #[.halted fault]⟩ := by
  rw [step_of_running hrun, hm.fetch_of_lt hpc]
  rfl

theorem step_of_le (hrun : m.status = .running) (hpc : m.pc + 2 ≤ Memory.size) :
    m.step = haltOnError m.pc
      ⟨(executeWord m.nextWord m.past).result, (executeWord m.nextWord m.past).state,
        #[.fetched m.pc m.nextWord] ++ (executeWord m.nextWord m.past).log⟩ := by
  rw [step_of_running hrun, fetch_of_le hpc]
  rfl

theorem step_of_not_le (hrun : m.status = .running) (hpc : ¬m.pc + 2 ≤ Memory.size) :
    ∃ e, m.memory.word m.pc = .error e ∧ m.step = haltOnError m.pc (.stop e m) := by
  cases hread : m.memory.word m.pc with
  | error e => exact ⟨e, rfl, by rw [step_of_running hrun, fetch, hread]; rfl⟩
  | ok w => exact absurd (m.memory.word_eq_ok_iff.mp hread).1 hpc

/-- Within bounds or not, a step leaves the keys and the settings alone, the random
source is only that of CXNN, and a timer that of the instruction that sets it. -/
theorem step_state (m : Machine R) :
    m.step.state = { m.step.state with
      delay := (m.attempted?.bind fun i => i.sets? m .delay).getD m.delay
      sound := (m.attempted?.bind fun i => i.sets? m .sound).getD m.sound
      keys := m.keys
      settings := m.settings
      source := m.attempted?.elim m.source fun i => i.spend m.source } := by
  cases hstatus : m.status with
  | idle =>
      rw [step_of_idle hstatus, attempted?_of_not_running (by simp [hstatus])]
      rfl
  | halted fault =>
      rw [step_of_halted hstatus, attempted?_of_not_running (by simp [hstatus])]
      rfl
  | running =>
      by_cases hpc : m.pc + 2 ≤ Memory.size
      · rw [step_of_le hstatus hpc, attempted?_of_le hstatus hpc, haltOnError_state,
          executeWord_state]
        rfl
      · obtain ⟨e, -, hstep⟩ := step_of_not_le hstatus hpc
        rw [hstep, attempted?_of_not_le hpc, haltOnError_state]
        rfl

theorem step_of_unassigned (hrun : m.status = .running) (hpc : m.pc + 2 ≤ Memory.size)
    (hword : m.nextWord.Unassigned) :
    let fault : Fault := ⟨m.pc, .unknownOpcode m.nextWord⟩
    m.step = ⟨.error (.raised fault), m.past.halt fault,
      #[.fetched m.pc m.nextWord, .halted fault]⟩ := by
  rw [step_of_le hrun hpc, executeWord, Instruction.decode?_eq_none_iff.mpr hword]
  rfl

theorem step_of_spells (hm : m.InBounds) (hrun : m.status = .running)
    (hpc : m.pc + 2 ≤ Memory.size) {i : Instruction} (hword : m.nextWord.Spells i) :
    m.step = match i.cause? m.past with
      | some c => ⟨.error (.raised ⟨m.pc, c⟩), (i.spoil m.past).halt ⟨m.pc, c⟩,
          #[.fetched m.pc m.nextWord, .halted ⟨m.pc, c⟩]⟩
      | none => ⟨.ok (), i.effect m.past, #[.fetched m.pc m.nextWord]⟩ := by
  rw [step_of_le hrun hpc, executeWord_of_spells hword]
  simp only [execute_eq (hm.ready_past hpc)]
  cases i.cause? m.past <;> rfl

theorem step_of_effect (hm : m.InBounds) (hrun : m.status = .running)
    (hpc : m.pc + 2 ≤ Memory.size) {i : Instruction} (hword : m.nextWord.Spells i)
    (hcause : i.cause? m.past = none) :
    m.step = ⟨.ok (), i.effect m.past, #[.fetched m.pc m.nextWord]⟩ := by
  rw [step_of_spells hm hrun hpc hword, hcause]

theorem step_cases (hm : m.InBounds) (hrun : m.status = .running) : m.StepCase := by
  rcases Nat.lt_or_ge Memory.size (m.pc + 2) with hlt | hpc
  · exact .unread hlt (step_of_lt hm hrun hlt)
  · cases hdecode : Instruction.decode? m.nextWord with
    | none =>
        have hword := Instruction.decode?_eq_none_iff.mp hdecode
        exact .unknown hpc hword (step_of_unassigned hrun hpc hword)
    | some i =>
        have hword := Instruction.decode?_eq_some_iff.mp hdecode
        cases hcause : i.cause? m.past with
        | none => exact .runs hpc i hword hcause (step_of_effect hm hrun hpc hword hcause)
        | some c =>
            refine .fails hpc i hword c hcause ?_
            rw [step_of_spells hm hrun hpc hword, hcause]

theorem InBounds.step (hm : m.InBounds) : m.step.state.InBounds := by
  cases hstatus : m.status with
  | idle => rw [step_of_idle hstatus]; exact hm
  | halted fault => rw [step_of_halted hstatus]; exact hm
  | running =>
      cases step_cases hm hstatus with
      | unread hpc hstep => rw [hstep]; exact hm.of_eq rfl rfl rfl
      | unknown hpc hword hstep => rw [hstep]; exact (hm.past hpc).of_eq rfl rfl rfl
      | fails hpc i hword c hcause hstep =>
          rw [hstep]
          exact ((hm.past hpc).spoil i).of_eq rfl rfl rfl
      | runs hpc i hword hcause hstep =>
          rw [hstep]
          exact (hm.past hpc).effect (hm.ready_past hpc) hcause

theorem InBounds.step_ne_overflow (hm : m.InBounds) : m.step.result ≠ .error .overflow := by
  cases hstatus : m.status with
  | idle => simp [step_of_idle hstatus]
  | halted fault => simp [step_of_halted hstatus]
  | running => cases step_cases hm hstatus <;> simp_all

/-! ## Steps in a row -/

section Row
variable {i : Instruction} (hm : m.InBounds) (hrun : m.status = .running)
  (hpc : m.pc + 2 ≤ Memory.size) (hword : m.nextWord.Spells i)
include hm hrun hpc hword

theorem repeated_step_of_effect (hcause : i.cause? m.past = none) (n : Nat) :
    let all := Outcome.repeated Machine.step (n + 1) (.done () m)
    let rest := Outcome.repeated Machine.step n (.done () (i.effect m.past))
    (i.effect m.past).InBounds ∧ all.result = rest.result ∧ all.state = rest.state := by
  intro all rest
  have hall : all = _ := Outcome.repeated_done_succ step n m
  rw [hall, step_of_effect hm hrun hpc hword hcause, Outcome.andThen_of_ok _ rfl]
  exact ⟨(hm.past hpc).effect (hm.ready_past hpc) hcause, rfl, rfl⟩

theorem repeated_step_of_cause {c : Cause} (hcause : i.cause? m.past = some c) (n : Nat) :
    let all := Outcome.repeated Machine.step (n + 1) (.done () m)
    let fault : Fault := ⟨m.pc, c⟩
    all.result = .error (.raised fault) ∧ all.state = (i.spoil m.past).halt fault := by
  intro all fault
  have hall : all = _ := Outcome.repeated_done_succ step n m
  have hstep := step_of_spells hm hrun hpc hword
  rw [hcause] at hstep
  rw [hall, hstep, Outcome.andThen_of_error _ rfl]
  exact ⟨rfl, rfl⟩

end Row

end Bounds

end Chip8.Machine
