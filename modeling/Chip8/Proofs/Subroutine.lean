/-
# `Chip8.Proofs.Subroutine` — calls and returns match

A step does one of three things to the stack (`step_stack`):

    stays     every instruction but two, and every failure
    pushes    2NNN, the address of the instruction after it
    pops      00EE, and goes on at the address that was on top

What lies under the top is out of reach of all three.  So an address stays where
it was pushed, with everything under it, until a step pops it and goes there
(`step_suffix`), however the program comes to that point: when the stack is first
back at its height before a call, the program is back behind that call
(`ret_matches_call`).
-/
import Chip8.Host.Terminal
import Chip8.Proofs.Calls

namespace Chip8

namespace Machine

variable {R : Type} [RandomSource R]

/-! ## One step -/

/-- What a step can make of the stack. -/
inductive StackCase (m : Machine R) : Prop where
  | stays (hnext : m.step.state.stack = m.stack)
  | pushes (hnext : m.step.state.stack = (m.pc + 2) :: m.stack)
  | pops (addr : Nat) (rest : List Nat) (hstack : m.stack = addr :: rest)
      (hnext : m.step.state.stack = rest) (hpc : m.step.state.pc = addr)

/-- Only 2NNN and 00EE change the stack. -/
theorem effect_stack (m : Machine R) {i : Instruction} (hcall : ∀ target, i ≠ .call target)
    (hret : i ≠ .ret) : (i.effect m).stack = m.stack := by
  cases i with
  | call target => exact absurd rfl (hcall target)
  | ret => exact absurd rfl hret
  | clear | draw _ _ _ | storeDecimal _ | storeRegisters _ => rfl
  | _ =>
      rw [Instruction.effect_onRegisters]
      trivial

theorem step_stack {m : Machine R} (hm : m.InBounds) : m.StackCase := by
  cases hstatus : m.status with
  | idle => exact .stays (by rw [step_of_idle hstatus]; rfl)
  | halted fault => exact .stays (by rw [step_of_halted hstatus]; rfl)
  | running =>
      cases step_cases hm hstatus with
      | unread _ hstep => exact .stays (by rw [hstep]; rfl)
      | unknown _ _ hstep => exact .stays (by rw [hstep]; rfl)
      | fails _ i _ _ _ hstep => exact .stays (by rw [hstep, i.spoil_eq m.past]; rfl)
      | runs _ i _ hcause hstep =>
          cases i with
          | call target => exact .pushes (by rw [hstep]; rfl)
          | ret =>
              cases hstack : m.stack with
              | nil => simp [Instruction.cause?, past, hstack] at hcause
              | cons addr rest =>
                  refine .pops addr rest hstack ?_ ?_
                  · rw [hstep]
                    exact congrArg List.tail hstack
                  · rw [hstep]
                    exact congrArg (List.headD · 0) hstack
          | _ =>
              refine .stays ?_
              rw [hstep]
              apply effect_stack
              · intro target h
                cases h
              · intro h
                cases h

/-- An address on the stack stays there with everything under it, unless a step goes
to it. -/
theorem step_suffix {m : Machine R} (hm : m.InBounds) {addr : Nat} {rest : List Nat}
    (h : addr :: rest <:+ m.stack) :
    addr :: rest <:+ m.step.state.stack ∨
      (m.step.state.stack = rest ∧ m.step.state.pc = addr) := by
  cases step_stack hm with
  | stays hnext => exact .inl (hnext ▸ h)
  | pushes hnext => exact .inl (hnext ▸ h.trans (List.suffix_cons _ _))
  | pops top below hstack hnext hpc =>
      rw [hstack] at h
      rcases List.suffix_cons_iff.mp h with heq | hbelow
      · obtain ⟨rfl, rfl⟩ := List.cons.inj heq
        exact .inr ⟨hnext, hpc⟩
      · exact .inl (hnext ▸ hbelow)

theorem step_of_call {m : Machine R} (hm : m.InBounds) (hrun : m.status = .running) {w : Word}
    (hword : m.memory.word m.pc = .ok w) (hcall : w.kind = 0x2)
    (hroom : m.stack.length < stackDepth) :
    m.step.state = { m with stack := (m.pc + 2) :: m.stack, pc := w.nnn } := by
  obtain ⟨hpc, rfl⟩ := m.memory.word_eq_ok_iff.mp hword
  have hspells : m.nextWord.Spells (.call m.nextWord.nnn) := ⟨hcall, rfl⟩
  have hcause : Instruction.cause? m.past (.call m.nextWord.nnn) = none :=
    if_neg (Nat.ne_of_lt hroom)
  rw [step_of_effect hm hrun hpc hspells hcause]
  rfl

theorem step_of_ret {m : Machine R} (hm : m.InBounds) (hrun : m.status = .running)
    (hword : m.memory.word m.pc = .ok 0x00EE) {addr : Nat} {rest : List Nat}
    (hstack : m.stack = addr :: rest) :
    m.step.state = { m with pc := addr, stack := rest } := by
  obtain ⟨hpc, hspells⟩ := m.memory.word_eq_ok_iff.mp hword
  have hcause : Instruction.cause? m.past .ret = none :=
    if_neg (hstack ▸ List.cons_ne_nil addr rest)
  rw [step_of_effect (i := .ret) hm hrun hpc hspells hcause]
  simp only [Instruction.effect, past, hstack, List.headD_cons, List.tail_cons]

/-! ## Runs -/

/-- From one machine to the next: the keys may change, and then it takes a step. -/
def Next (m m' : Machine R) : Prop := ∃ keys, m' = (m.setKeys keys).step.state

theorem Next.of_step {m m' : Machine R} (h : m.step.state = m') : m.Next m' := ⟨m.keys, h.symm⟩

theorem Next.inBounds {m m' : Machine R} (h : m.Next m') (hm : m.InBounds) : m'.InBounds := by
  obtain ⟨keys, rfl⟩ := h
  exact InBounds.step (hm.of_eq rfl rfl rfl)

theorem Next.suffix {m m' : Machine R} (h : m.Next m') (hm : m.InBounds) {addr : Nat}
    {rest : List Nat} (hsuffix : addr :: rest <:+ m.stack) :
    addr :: rest <:+ m'.stack ∨ (m'.stack = rest ∧ m'.pc = addr) := by
  obtain ⟨keys, rfl⟩ := h
  exact step_suffix (m := m.setKeys keys) (hm.of_eq rfl rfl rfl) hsuffix

section Runs
variable {s : Nat → Machine R} {k : Nat}

theorem inBounds_of_run (hstart : (s 0).InBounds) (hsteps : ∀ i ≤ k, (s i).Next (s (i + 1)))
    {i : Nat} (hi : i ≤ k + 1) : (s i).InBounds := by
  induction i with
  | zero => exact hstart
  | succ i ih => exact (hsteps i (Nat.le_of_succ_le_succ hi)).inBounds (ih (Nat.le_of_succ_le hi))

/-- As long as the stack is higher than `rest`, the address on top of `rest` stays. -/
theorem suffix_of_run (hstart : (s 0).InBounds) (hsteps : ∀ i ≤ k, (s i).Next (s (i + 1)))
    {addr : Nat} {rest : List Nat} (hfirst : addr :: rest <:+ (s 1).stack)
    (hdeeper : ∀ i, 1 ≤ i → i ≤ k → rest.length + 1 ≤ (s i).stack.length) {i : Nat}
    (hi : 1 ≤ i) (hik : i ≤ k) : addr :: rest <:+ (s i).stack := by
  induction hi with
  | refl => exact hfirst
  | @step i hi ih =>
      have hbounds := inBounds_of_run hstart hsteps (Nat.le_of_lt (Nat.lt_succ_of_lt hik))
      rcases (hsteps i (Nat.le_of_succ_le hik)).suffix hbounds (ih (Nat.le_of_succ_le hik)) with
        hkept | ⟨hpopped, -⟩
      · exact hkept
      · have := hdeeper (i + 1) (Nat.le_succ_of_le hi) hik
        rw [hpopped] at this
        exact absurd this (Nat.not_succ_le_self _)

end Runs

end Machine

section Return
variable {R H : Type} [RandomSource R] [Host H]

/-- When the stack is first back at its height before a call, it is the stack before
the call, and the program is at the instruction after the call. -/
theorem ret_matches_call {s : Nat → Machine R} {k : Nat} {w : Word} (hreach : Reachable H (s 0))
    (hrun : (s 0).status = .running) (hword : (s 0).memory.word (s 0).pc = .ok w)
    (hcall : w.kind = 0x2) (hroom : (s 0).stack.length < 16)
    (hsteps : ∀ i ≤ k, (s i).Next (s (i + 1)))
    (hdeeper : ∀ i, 1 ≤ i → i ≤ k → (s 0).stack.length + 1 ≤ (s i).stack.length)
    (hback : (s (k + 1)).stack.length = (s 0).stack.length) :
    (s (k + 1)).stack = (s 0).stack ∧ (s (k + 1)).pc = (s 0).pc + 2 := by
  have hstart := hreach.inBounds
  have hfirst : (s 1).stack = ((s 0).pc + 2) :: (s 0).stack := by
    obtain ⟨keys, h⟩ := hsteps 0 (Nat.zero_le k)
    have hstep := Machine.step_of_call (m := (s 0).setKeys keys) (hstart.of_eq rfl rfl rfl) hrun
      hword hcall hroom
    rw [h, hstep]
    rfl
  have hk : 1 ≤ k := by
    rcases Nat.eq_zero_or_pos k with rfl | hk
    · -- the call itself does not come back to its height
      rw [hfirst] at hback
      exact absurd hback (Nat.succ_ne_self _)
    · exact hk
  have hlast : ((s 0).pc + 2) :: (s 0).stack <:+ (s k).stack :=
    Machine.suffix_of_run hstart hsteps (hfirst ▸ List.suffix_rfl) hdeeper hk (Nat.le_refl k)
  have hbounds := Machine.inBounds_of_run hstart hsteps (Nat.le_succ k)
  rcases (hsteps k (Nat.le_refl k)).suffix hbounds hlast with hkept | hreturned
  · have := hkept.length_le
    rw [hback] at this
    exact absurd this (Nat.not_succ_le_self _)
  · exact hreturned

/-- 2204 calls a subroutine, which calls another with 2208 before its own 00EE. -/
theorem ret_matches_call_of_nested :
    let start := (Machine.idle {} (⟨0, 1⟩ : Counter)).loaded
      [0x22, 0x04, 0x00, 0x00, 0x22, 0x08, 0x00, 0xEE, 0x00, 0xEE]
    let arrived (pc : Nat) (stack : List Nat) := { start with pc := pc, stack := stack }
    let s : Nat → Machine Counter
      | 0 => start
      | 1 => arrived 0x204 [0x202]
      | 2 => arrived 0x208 [0x206, 0x202]
      | 3 => arrived 0x206 [0x202]
      | _ => arrived 0x202 []
    (∀ i ≤ 3, (s i).Next (s (i + 1))) ∧ (s 4).stack = (s 0).stack ∧ (s 4).pc = (s 0).pc + 2 := by
  intro start arrived s
  have hreach : Reachable Terminal start := (Reachable.idle _ _).loaded (by decide)
  have hzero : (s 0).InBounds := hreach.inBounds
  have hcall : start.memory.word 0x200 = .ok (.ofBytes 0x22 0x04) :=
    (Memory.word_eq_ok_iff _).mpr ⟨by decide, Machine.nextWord_loaded _ rfl rfl⟩
  have hinner : start.memory.word 0x204 = .ok (.ofBytes 0x22 0x08) :=
    (Memory.word_eq_ok_iff _).mpr ⟨by decide, Machine.wordAt_loaded (k := 4) _ (by decide) rfl rfl⟩
  have hret : start.memory.word 0x206 = .ok (.ofBytes 0x00 0xEE) :=
    (Memory.word_eq_ok_iff _).mpr ⟨by decide, Machine.wordAt_loaded (k := 6) _ (by decide) rfl rfl⟩
  have hinnerRet : start.memory.word 0x208 = .ok (.ofBytes 0x00 0xEE) :=
    (Memory.word_eq_ok_iff _).mpr ⟨by decide, Machine.wordAt_loaded (k := 8) _ (by decide) rfl rfl⟩
  have hfirst : (s 0).step.state = s 1 := Machine.step_of_call hzero rfl hcall rfl (by decide)
  have hone : (s 1).InBounds := hfirst ▸ hzero.step
  have hsecond : (s 1).step.state = s 2 := Machine.step_of_call hone rfl hinner rfl (by decide)
  have htwo : (s 2).InBounds := hsecond ▸ hone.step
  have hthird : (s 2).step.state = s 3 := Machine.step_of_ret htwo rfl hinnerRet rfl
  have hthree : (s 3).InBounds := hthird ▸ htwo.step
  have hfourth : (s 3).step.state = s 4 := Machine.step_of_ret hthree rfl hret rfl
  have hsteps : ∀ i ≤ 3, (s i).Next (s (i + 1))
    | 0, _ => .of_step hfirst
    | 1, _ => .of_step hsecond
    | 2, _ => .of_step hthird
    | 3, _ => .of_step hfourth
  have hdeeper : ∀ i, 1 ≤ i → i ≤ 3 → (s 0).stack.length + 1 ≤ (s i).stack.length
    | 1, _, _ | 2, _, _ | 3, _, _ => by decide
  exact ⟨hsteps, ret_matches_call (H := Terminal) hreach rfl hcall rfl (by decide) hsteps hdeeper
    rfl⟩

end Return

end Chip8
