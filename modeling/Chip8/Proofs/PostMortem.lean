/-
# `Chip8.Proofs.PostMortem` — a halted machine shows why

A fault names an address and a cause.  Whoever finds the machine halted can
check both against the machine itself (`Fault.ShownBy`): the program counter is
where the failure left it, the word at the address is one that can fail so, and
the stack, I or VX is what made it fail.

    stackUnderflow   00EE, and the stack is empty
    stackOverflow    2NNN, and the stack is full
    unknownOpcode    the word spells no instruction
    outOfBounds      there is no whole word at the address, or
                     DXYN, FX33, FX55, FX65 and the range does not fit, or
                     FX1E and the sum does not fit

That is so right after the failure, for a failing instruction leaves all this
alone, and it stays so, for a halted machine changes no more
(`shown_after_halt`).
-/
import Chip8.Host.Terminal
import Chip8.Proofs.Calls

namespace Chip8

/-! ## What a halted machine shows -/

/-- The words of the instructions that read or write `len` bytes from I on. -/
def Word.Transfers (w : Word) (len : Nat) : Prop :=
  (w.kind = 0xD ∧ len = w.n) ∨
  (w.kind = 0xF ∧ w.nn = 0x33 ∧ len = 3) ∨
  (w.kind = 0xF ∧ (w.nn = 0x55 ∨ w.nn = 0x65) ∧ len = w.x + 1)

section Shown
variable {R : Type}

/-- The machine has at the address `q` what can be the cause. -/
def Cause.ShownBy (q : Nat) (m : Machine R) : Cause → Prop
  | .romTooLarge _ _ => False
  | .stackUnderflow => m.memory.word q = .ok 0x00EE ∧ m.stack = []
  | .stackOverflow => (∃ w, m.memory.word q = .ok w ∧ w.kind = 0x2) ∧ m.stack.length = 16
  | .unknownOpcode op => m.memory.word q = .ok op ∧ op.Unassigned
  | .outOfBounds a =>
      (4095 ≤ q ∧ a = max q 4096) ∨
      (q ≤ 4094 ∧ ∃ w len, m.memory.word q = .ok w ∧ w.Transfers len ∧
        4096 < m.index + len ∧ a = max m.index 4096) ∨
      (q ≤ 4094 ∧ ∃ w, m.memory.word q = .ok w ∧ w.kind = 0xF ∧ w.nn = 0x1E ∧
        a = m.index + (m.v.get w.x).toNat ∧ 0xFFFF < a)

/-- The machine shows that `f` halted it. -/
def Fault.ShownBy (f : Fault) (m : Machine R) : Prop :=
  m.pc = (if 4095 ≤ f.pc then f.pc else f.pc + 2) ∧ f.cause.ShownBy f.pc m

theorem Fault.ShownBy.of_eq {f : Fault} {m m' : Machine R} (h : f.ShownBy m)
    (hpc : m'.pc = m.pc) (hmemory : m'.memory = m.memory) (hstack : m'.stack = m.stack)
    (hindex : m'.index = m.index) (hv : m'.v = m.v) : f.ShownBy m' := by
  cases m
  cases m'
  cases hpc
  cases hmemory
  cases hstack
  cases hindex
  cases hv
  obtain ⟨pc, cause⟩ := f
  cases cause <;> exact h

end Shown

/-! ## Right after the failure -/

section Failing
variable {R : Type} {m : Machine R}

theorem transfers_of_span {w : Word} {i : Instruction} {len : Nat} (hword : w.Spells i)
    (hspan : i.span? = some len) : w.Transfers len := by
  cases i with
  | draw x y n =>
      cases hspan
      obtain ⟨hk, -, -, rfl⟩ := hword
      exact .inl ⟨hk, rfl⟩
  | storeDecimal x =>
      cases hspan
      obtain ⟨hk, hnn, -⟩ := hword
      exact .inr (.inl ⟨hk, hnn, rfl⟩)
  | storeRegisters x =>
      cases hspan
      obtain ⟨hk, hnn, rfl⟩ := hword
      exact .inr (.inr ⟨hk, .inl hnn, rfl⟩)
  | loadRegisters x =>
      cases hspan
      obtain ⟨hk, hnn, rfl⟩ := hword
      exact .inr (.inr ⟨hk, .inr hnn, rfl⟩)
  | _ => cases hspan

/-- An instruction that fails for want of memory has a range that sticks out. -/
theorem shown_of_span {i : Instruction} {c : Cause} {q : Nat} {w : Word} (hq : q ≤ 4094)
    (hw : m.memory.word q = .ok w) (hword : w.Spells i)
    (hcause : i.span?.bind (Instruction.rangeCause? m.index) = some c) : c.ShownBy q m := by
  obtain ⟨len, hspan, hrange⟩ := Option.bind_eq_some_iff.mp hcause
  unfold Instruction.rangeCause? at hrange
  split at hrange
  · next hlt =>
      cases hrange
      exact .inr (.inl ⟨hq, w, len, hw, transfers_of_span hword hspan, hlt, rfl⟩)
  · cases hrange

theorem shown_of_cause {i : Instruction} {c : Cause} {q : Nat} {w : Word} (hq : q ≤ 4094)
    (hw : m.memory.word q = .ok w) (hword : w.Spells i) (hcause : i.cause? m = some c) :
    c.ShownBy q m := by
  cases i with
  | ret =>
      simp only [Instruction.cause?] at hcause
      split at hcause
      · next hstack =>
          cases hcause
          cases hword
          exact ⟨hw, hstack⟩
      · cases hcause
  | call target =>
      simp only [Instruction.cause?] at hcause
      split at hcause
      · next hstack =>
          cases hcause
          exact ⟨⟨w, hw, hword.1⟩, hstack⟩
      · cases hcause
  | addIndex x =>
      obtain ⟨hk, hnn, rfl⟩ := hword
      simp only [Instruction.cause?] at hcause
      split at hcause
      · cases hcause
      · next hsum =>
          cases hcause
          exact .inr (.inr ⟨hq, w, hw, hk, hnn, rfl, Nat.le_of_not_lt hsum⟩)
  | _ => exact shown_of_span hq hw hword hcause

theorem cause?_spoil (i : Instruction) : i.cause? (i.spoil m) = i.cause? m := by
  cases i <;> rfl

theorem effect_status [RandomSource R] (i : Instruction) : (i.effect m).status = m.status := by
  cases i with
  | clear | ret | call _ | draw _ _ _ | storeDecimal _ | storeRegisters _ => rfl
  | _ =>
      rw [Instruction.effect_onRegisters]
      trivial

end Failing

/-! ## Ever after -/

section After
variable {R H : Type} [RandomSource R] [Host H]

/-- A halted machine shows its fault. -/
def Machine.Honest (m : Machine R) : Prop := ∀ f, m.status = .halted f → f.ShownBy m

theorem honest_step {m : Machine R} (hm : m.InBounds) (hhonest : m.Honest) :
    m.step.state.Honest := by
  cases hstatus : m.status with
  | idle =>
      rw [Machine.step_of_idle hstatus]
      exact hhonest
  | halted fault =>
      rw [Machine.step_of_halted hstatus]
      exact hhonest
  | running =>
      intro f hf
      cases Machine.step_cases hm hstatus with
      | unread hpc hstep =>
          rw [hstep] at hf ⊢
          cases hf
          have hq : 4095 ≤ m.pc := by
            rw [Memory.size_eq] at hpc
            omega
          exact ⟨(if_pos hq).symm, .inl ⟨hq, rfl⟩⟩
      | unknown hpc hword hstep =>
          rw [hstep] at hf ⊢
          cases hf
          have hq : ¬4095 ≤ m.pc := by
            rw [Memory.size_eq] at hpc
            omega
          exact ⟨(if_neg hq).symm, m.memory.word_of_le hpc, hword⟩
      | fails hpc i hword c hcause hstep =>
          rw [hstep] at hf ⊢
          cases hf
          have hq : m.pc ≤ 4094 := by
            rw [Memory.size_eq] at hpc
            omega
          have hw : (i.spoil m.past).memory.word m.pc = .ok m.nextWord := by
            rw [i.spoil_eq m.past]
            exact m.memory.word_of_le hpc
          have hshown := shown_of_cause hq hw hword ((cause?_spoil i).trans hcause)
          have hpast : (i.spoil m.past).pc = if 4095 ≤ m.pc then m.pc else m.pc + 2 := by
            rw [i.spoil_eq m.past, if_neg (by omega)]
            rfl
          exact Fault.ShownBy.of_eq ⟨hpast, hshown⟩ rfl rfl rfl rfl rfl
      | runs _ i _ _ hstep =>
          rw [hstep] at hf
          have hsame : (i.effect m.past).status = .running := (effect_status i).trans hstatus
          rw [hsame] at hf
          cases hf

theorem honest_kept : Kept fun m : Machine R => m.InBounds ∧ m.Honest where
  setKeys hm keys := ⟨inBounds_kept.setKeys hm.1 keys, fun f hf => (hm.2 f hf).of_eq rfl rfl rfl rfl rfl⟩
  takeFrame hm := ⟨inBounds_kept.takeFrame hm.1, fun f hf => (hm.2 f hf).of_eq rfl rfl rfl rfl rfl⟩
  countDown hm h := ⟨inBounds_kept.countDown hm.1 h, fun f hf => (hm.2 f hf).of_eq rfl rfl rfl rfl rfl⟩
  step hm := ⟨hm.1.step, honest_step hm.1 hm.2⟩

theorem Reachable.honest {m : Machine R} (hm : Reachable H m) : m.Honest := by
  refine (honest_kept.reachable ?_ ?_ hm).2
  · intro settings source
    exact ⟨inBounds_idle settings source, fun _ hf => by cases hf⟩
  · intro rom m _
    exact ⟨inBounds_loaded rom m, fun _ hf => by cases hf⟩

theorem halted_kept (f : Fault) : Kept fun m : Machine R => m.status = .halted f where
  setKeys hm _ := hm
  takeFrame hm := hm
  countDown hm _ := hm
  step hm := by rw [Machine.step_of_halted hm]; exact hm

/-- Once halted, a machine stays halted and shows why, whatever is asked of it
but to load another program. -/
theorem shown_after_halt {m : Machine R} (hm : Reachable H m) {f : Fault}
    (hf : m.status = .halted f) {calls : List (Call H)} (hcalls : ∀ c ∈ calls, ¬c.Loads) :
    (after calls m).status = .halted f ∧ f.ShownBy (after calls m) := by
  have hstays : (after calls m).status = .halted f := (halted_kept f).after hcalls hf
  exact ⟨hstays, (hm.after calls).honest f hstays⟩

/-- A program that returns with nothing to return to. -/
theorem shown_after_halt_of_ret :
    let m := (Machine.idle {} (⟨0, 1⟩ : Counter)).loaded [0x00, 0xEE]
    let fault : Fault := ⟨0x200, .stackUnderflow⟩
    m.step.state.status = .halted fault ∧
    fault.ShownBy (after ([.setKeys .released, .frame] : List (Call Terminal)) m.step.state) := by
  intro m fault
  have hm : Reachable Terminal m.step.state := ((Reachable.idle _ _).loaded (by decide)).step
  have hword : m.nextWord = .ofBytes 0x00 0xEE := Machine.nextWord_loaded _ rfl rfl
  have hpc : m.pc + 2 ≤ Memory.size := show 0x200 + 2 ≤ 0x1000 by decide
  have hstep := Machine.step_of_spells (i := .ret) (inBounds_loaded _ _) rfl hpc hword
  have hhalted : m.step.state.status = .halted fault := by
    rw [hstep]
    rfl
  have hcalls : ∀ c ∈ ([.setKeys .released, .frame] : List (Call Terminal)), ¬c.Loads := by decide
  exact ⟨hhalted, (shown_after_halt hm hhalted hcalls).2⟩

end After

end Chip8
