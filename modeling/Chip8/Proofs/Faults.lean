/-
# `Chip8.Proofs.Faults` — when a step fails, and what it leaves

Whether the step of a running machine will fail, and why, can be read off the machine
before it.  `stopCause?` computes the cause, and `Cause.ShownBy`, by which a halted machine
is read afterwards, is the table of it (`stopCause?_eq_some_iff`):

    stopCause? = some c    the step fails with c, at the program counter
    stopCause? = none      the step comes to its end, and the machine runs on

A failure leaves the machine as it was before the step, but for three things
(`stoppedBy`):

    status    halted by the fault
    pc        past the word, if one was read
    VF        0, if the word was DXYN

That is so on every running machine, within bounds or not, and for the step that ends a
frame too (`intact_after_fault`).

DXYN reads its rows all at once.  That fails just where reading them one by one would, and
names the same address, but for one case: a sprite without rows fails from an I that lies
beyond the end of memory (`draw_faults_iff_row_outside`).
-/
import Chip8.Proofs.PostMortem

namespace Chip8

variable {R : Type} {m : Machine R}

/-! ## Causes -/

namespace Instruction

theorem cause?_of_span {i : Instruction} {len : Nat} (h : i.span? = some len) :
    i.cause? m = rangeCause? m.index len := by
  cases i with
  | draw _ _ _ | storeDecimal _ | storeRegisters _ | loadRegisters _ => cases h; rfl
  | _ => cases h

theorem cause?_past (i : Instruction) : i.cause? m.past = i.cause? m := by
  cases i <;> rfl

end Instruction

theorem Word.Transfers.spells {w : Word} {len : Nat} (h : w.Transfers len) :
    ∃ i : Instruction, w.Spells i ∧ i.span? = some len := by
  rcases h with ⟨hk, rfl⟩ | ⟨hk, hnn, rfl⟩ | ⟨hk, hnn | hnn, rfl⟩
  · exact ⟨.draw w.x w.y w.n, ⟨hk, rfl, rfl, rfl⟩, rfl⟩
  · exact ⟨.storeDecimal w.x, ⟨hk, hnn, rfl⟩, rfl⟩
  · exact ⟨.storeRegisters w.x, ⟨hk, hnn, rfl⟩, rfl⟩
  · exact ⟨.loadRegisters w.x, ⟨hk, hnn, rfl⟩, rfl⟩

namespace Machine

/-- Why the step of a running machine will fail, if it will. -/
def stopCause? (m : Machine R) : Option Cause :=
  if m.pc + 2 ≤ Memory.size then
    match Instruction.decode? m.nextWord with
    | some i => i.cause? m
    | none => some (.unknownOpcode m.nextWord)
  else some (.outOfBounds (max m.pc Memory.size))

theorem stopCause?_of_spells {w : Word} {i : Instruction} (hw : m.memory.word m.pc = .ok w)
    (hword : w.Spells i) : m.stopCause? = i.cause? m := by
  obtain ⟨hpc, rfl⟩ := m.memory.word_eq_ok_iff.mp hw
  rw [stopCause?, if_pos hpc, nextWord, Instruction.decode?_of_spells hword]

theorem stopCause?_of_unassigned {w : Word} (hw : m.memory.word m.pc = .ok w)
    (hword : w.Unassigned) : m.stopCause? = some (.unknownOpcode w) := by
  obtain ⟨hpc, rfl⟩ := m.memory.word_eq_ok_iff.mp hw
  rw [stopCause?, if_pos hpc, nextWord, Instruction.decode?_eq_none_iff.mpr hword]

theorem shown_of_stopCause? {c : Cause} (h : m.stopCause? = some c) : c.ShownBy m.pc m := by
  unfold stopCause? at h
  split at h
  · next hpc =>
      have hq : m.pc ≤ 4094 := by
        rw [Memory.size_eq] at hpc
        omega
      have hw := m.memory.word_of_le hpc
      cases hdecode : Instruction.decode? m.nextWord with
      | some i =>
          rw [hdecode] at h
          exact shown_of_cause hq hw (Instruction.spells_of_decode? hdecode) h
      | none =>
          rw [hdecode] at h
          cases h
          exact ⟨hw, Instruction.unassigned_of_decode? hdecode⟩
  · next hpc =>
      cases h
      have hq : 4095 ≤ m.pc := by
        rw [Memory.size_eq] at hpc
        omega
      exact .inl ⟨hq, rfl⟩

theorem stopCause?_of_shown {c : Cause} (h : c.ShownBy m.pc m) : m.stopCause? = some c := by
  cases c with
  | romTooLarge _ _ => exact h.elim
  | stackUnderflow =>
      obtain ⟨hw, hstack⟩ := h
      rw [stopCause?_of_spells (i := .ret) hw rfl]
      exact if_pos hstack
  | stackOverflow =>
      obtain ⟨⟨w, hw, hk⟩, hstack⟩ := h
      rw [stopCause?_of_spells (i := .call w.nnn) hw ⟨hk, rfl⟩]
      exact if_pos hstack
  | unknownOpcode op => exact stopCause?_of_unassigned h.1 h.2
  | outOfBounds a =>
      rcases h with ⟨hq, rfl⟩ | ⟨-, w, len, hw, htransfers, hlt, rfl⟩ |
        ⟨-, w, hw, hk, hnn, rfl, hsum⟩
      · have hpc : ¬m.pc + 2 ≤ Memory.size := by
          rw [Memory.size_eq]
          omega
        rw [stopCause?, if_neg hpc]
        rfl
      · obtain ⟨i, hword, hspan⟩ := htransfers.spells
        rw [stopCause?_of_spells hw hword, Instruction.cause?_of_span hspan]
        exact Instruction.rangeCause?_of_lt hlt
      · rw [stopCause?_of_spells (i := .addIndex w.x) hw ⟨hk, hnn, rfl⟩]
        exact if_neg (Nat.not_lt.mpr hsum)

theorem stopCause?_eq_some_iff {c : Cause} : m.stopCause? = some c ↔ c.ShownBy m.pc m :=
  ⟨shown_of_stopCause?, stopCause?_of_shown⟩

variable [RandomSource R]

theorem step_result (hm : m.InBounds) (hrun : m.status = .running) :
    m.step.result = match m.stopCause? with
      | some c => .error (.raised ⟨m.pc, c⟩)
      | none => .ok () := by
  cases step_cases hm hrun with
  | unread hpc hstep => rw [hstep, stopCause?, if_neg (Nat.not_le.mpr hpc)]
  | unknown hpc hword hstep =>
      rw [hstep, stopCause?_of_unassigned (m.memory.word_of_le hpc) hword]
      rfl
  | fails hpc i hword c hcause hstep =>
      rw [i.cause?_past] at hcause
      rw [hstep, stopCause?_of_spells (m.memory.word_of_le hpc) hword, hcause]
  | runs hpc i hword hcause hstep =>
      rw [i.cause?_past] at hcause
      rw [hstep, stopCause?_of_spells (m.memory.word_of_le hpc) hword, hcause]

theorem step_raised_iff_stopCause? (hm : m.InBounds) (hrun : m.status = .running)
    (fault : Fault) :
    m.step.result = .error (.raised fault) ↔ fault.pc = m.pc ∧ m.stopCause? = some fault.cause := by
  obtain ⟨pc, cause⟩ := fault
  rw [step_result hm hrun]
  cases m.stopCause? with
  | none => simp
  | some c => simp [eq_comm]

end Machine

variable {H : Type} [RandomSource R] [Host H]

/-- A running machine fails just if it shows a cause, with the cause it shows and at the
address of the instruction; otherwise its step comes to its end and it runs on. -/
theorem step_faults_iff_shown (hm : Reachable H m) (hrun : m.status = .running) :
    (∀ fault : Fault, m.step.result = .error (.raised fault) ↔
      fault.pc = m.pc ∧ fault.cause.ShownBy m.pc m) ∧
    ((∀ c : Cause, ¬c.ShownBy m.pc m) →
      m.step.result = .ok () ∧ m.step.state.status = .running) := by
  have hin := hm.inBounds
  constructor
  · intro fault
    rw [Machine.step_raised_iff_stopCause? hin hrun, Machine.stopCause?_eq_some_iff]
  · intro hnone
    have hcause : m.stopCause? = none := by
      apply Option.eq_none_iff_forall_ne_some.mpr
      intro c hc
      exact hnone c (Machine.stopCause?_eq_some_iff.mp hc)
    have hok : m.step.result = .ok () := by
      rw [Machine.step_result hin hrun, hcause]
    exact ⟨hok, (Machine.step_status_of_ok hok).trans hrun⟩

/-- AFFE comes to its end; D003 reads the last two bytes of memory and fails at the third. -/
theorem step_faults_iff_shown_of_draw :
    let rom : List UInt8 := [0xAF, 0xFE, 0xD0, 0x03]
    let start := (Machine.idle {} (⟨0, 1⟩ : Counter)).loaded rom
    start.step.result = .ok () ∧ start.step.state.status = .running ∧
    start.step.state.step.result = .error (.raised ⟨0x202, .outOfBounds 0x1000⟩) := by
  intro rom start
  have hreach : Reachable Terminal start := (Reachable.idle _ _).loaded (by decide)
  have hpc : start.pc + 2 ≤ Memory.size := show 0x200 + 2 ≤ 0x1000 by decide
  have hindex : start.nextWord.Spells (.setIndex 0xFFE) :=
    Machine.spells_loaded (k := 0) _ (by decide) rfl rfl ⟨rfl, rfl⟩
  have hnone : ∀ c : Cause, ¬c.ShownBy start.pc start := by
    intro c hc
    have hcause := Machine.stopCause?_of_shown hc
    rw [Machine.stopCause?_of_spells (start.memory.word_of_le hpc) hindex] at hcause
    cases hcause
  obtain ⟨hok, hrun⟩ := (step_faults_iff_shown hreach rfl).2 hnone
  have hstate : start.step.state = Instruction.effect start.past (.setIndex 0xFFE) := by
    rw [Machine.step_of_effect hreach.inBounds rfl hpc hindex rfl]
  have hdraw : start.memory.wordAt (start.pc + 2) = .ofBytes 0xD0 0x03 :=
    Machine.wordAt_loaded (k := 2) _ (by decide) rfl rfl
  have hread := start.memory.word_of_le (show start.pc + 2 + 2 ≤ Memory.size by decide)
  have hshown : (Cause.outOfBounds 0x1000).ShownBy start.step.state.pc start.step.state := by
    rw [hstate]
    rw [hdraw] at hread
    exact .inr (.inl ⟨by decide, _, 3, hread, .inl ⟨rfl, rfl⟩, by decide, by decide⟩)
  refine ⟨hok, hrun, ((step_faults_iff_shown hreach.step hrun).1 _).mpr ⟨?_, hshown⟩⟩
  rw [hstate]
  rfl

/-! ## What a failure leaves -/

namespace Machine

variable {R : Type} {m : Machine R} {fault : Fault}

theorem spoil_of_spells {w : Word} {i : Instruction} (hword : w.Spells i) :
    i.spoil m = if w.kind = 0xD then m.setFlag false else m := by
  by_cases hk : w.kind = 0xD
  · have hsame := (Instruction.decode?_of_spells hword).symm.trans (Instruction.decode?_of_draw hk)
    rw [if_pos hk, Option.some.inj hsame]
    rfl
  · rw [if_neg hk]
    cases i with
    | draw _ _ _ => exact absurd hword.1 hk
    | _ => rfl

theorem haltOnError_of_raised {pc : Nat} {o : Effect R}
    (h : (haltOnError pc o).result = .error (.raised fault)) :
    ∃ c, o.result = .error (.raised c) ∧ fault = ⟨pc, c⟩ ∧
      (haltOnError pc o).state = o.state.halt fault := by
  unfold haltOnError at h ⊢
  cases hresult : o.result with
  | ok _ => rw [hresult] at h; cases h
  | error e =>
      rw [hresult] at h
      cases e with
      | overflow => cases h
      | raised c => cases h; exact ⟨c, rfl, rfl, rfl⟩

/-- What `fault` leaves of the machine that it stops. -/
def stoppedBy (m : Machine R) (fault : Fault) : Machine R :=
  match m.fetch.result with
  | .error _ => { m with status := .halted fault }
  | .ok w =>
      { m with
        pc := m.pc + 2
        v := if w.kind = 0xD then (m.setV 0xF 0).v else m.v
        status := .halted fault }

theorem stoppedBy_of_le (hpc : m.pc + 2 ≤ Memory.size) :
    m.stoppedBy fault =
      (if m.nextWord.kind = 0xD then m.past.setFlag false else m.past).halt fault := by
  rw [stoppedBy, fetch_of_le hpc]
  dsimp only
  change { m with pc := _, v := if m.nextWord.kind = 0xD then _ else _, status := _ } = _
  by_cases hk : m.nextWord.kind = 0xD
  · rw [if_pos hk, if_pos hk]
    rfl
  · rw [if_neg hk, if_neg hk]
    rfl

theorem stoppedBy_of_unread {e : Stop Cause} (hread : m.memory.word m.pc = .error e) :
    m.stoppedBy fault = m.halt fault := by
  have hfetch : m.fetch = .stop e m := by rw [fetch, hread]
  rw [stoppedBy, hfetch]
  rfl

variable [RandomSource R]

theorem executeWord_of_raised {w : Word} {c : Cause}
    (h : (executeWord w m).result = .error (.raised c)) :
    (executeWord w m).state = if w.kind = 0xD then m.setFlag false else m := by
  unfold executeWord at h ⊢
  cases hdecode : Instruction.decode? w with
  | some i =>
      rw [hdecode] at h
      exact (congrArg Outcome.state (execute_of_raised h)).trans
        (spoil_of_spells (Instruction.spells_of_decode? hdecode))
  | none =>
      have hk : w.kind ≠ 0xD := by
        intro hk
        rw [Instruction.decode?_of_draw hk] at hdecode
        cases hdecode
      exact (if_neg hk).symm

/-- Within bounds or not, a step that fails names its own address and leaves all but three
things as they were. -/
theorem step_of_raised (hrun : m.status = .running)
    (h : m.step.result = .error (.raised fault)) :
    fault.pc = m.pc ∧ m.step.state = m.stoppedBy fault := by
  by_cases hpc : m.pc + 2 ≤ Memory.size
  · rw [step_of_le hrun hpc] at h ⊢
    obtain ⟨c, hraised, rfl, hstate⟩ := haltOnError_of_raised h
    refine ⟨rfl, hstate.trans ?_⟩
    rw [stoppedBy_of_le hpc, ← executeWord_of_raised hraised]
  · obtain ⟨e, hread, hstep⟩ := step_of_not_le hrun hpc
    rw [hstep] at h ⊢
    obtain ⟨c, -, rfl, hstate⟩ := haltOnError_of_raised h
    rw [stoppedBy_of_unread hread]
    exact ⟨rfl, hstate⟩

end Machine

/-- A failing step leaves the machine as it was but for the status, a program counter past
the word that was read, and the flag that a DXYN has cleared.  A frame that fails leaves
just that of the machine that its timers and the steps before have made. -/
theorem intact_after_fault (hrun : m.status = .running) (fault : Fault) :
    (m.step.result = .error (.raised fault) →
      fault.pc = m.pc ∧ m.step.state = m.stoppedBy fault) ∧
    (m.frame.result = .error (.raised fault) → ∃ k < m.settings.perFrame,
      let batch := Outcome.repeated Machine.step k (.done () m.countDown)
      batch.result = .ok () ∧ batch.state.status = .running ∧
      batch.state.step.result = .error (.raised fault) ∧
      fault.pc = batch.state.pc ∧ m.frame.state = batch.state.stoppedBy fault) := by
  refine ⟨Machine.step_of_raised hrun, ?_⟩
  intro hframe
  rw [Machine.frame_of_not_halted (Machine.isHalted_of_running hrun)] at hframe ⊢
  obtain ⟨k, hk, hok, hlast, hstate⟩ := Outcome.repeated_eq_error Machine.step hframe
  have hstays : ∀ s : Machine R, s.status = .running → s.step.result = .ok () →
      s.step.state.status = .running := fun s hs hok => (Machine.step_status_of_ok hok).trans hs
  have hrun' := Outcome.repeated_preserves_of_ok Machine.step hstays k (s := m.countDown) hrun hok
  obtain ⟨hpc, hleft⟩ := Machine.step_of_raised hrun' hlast
  exact ⟨k, hk, hok, hrun', hlast, hpc, hstate.trans hleft⟩

/-- An ANNN, and then a DXYN whose rows are not all in memory. -/
theorem fails_of_draw_past_end (hm : m.InBounds) (hrun : m.status = .running)
    (hpc : m.pc + 2 + 2 ≤ Memory.size) {target : Target} {x y n : Fin 16}
    (hindex : m.nextWord.Spells (.setIndex target))
    (hdraw : (m.memory.wordAt (m.pc + 2)).Spells (.draw x y n))
    (hsticks : Memory.size < target.val + n) :
    let fault : Fault := ⟨m.pc + 2, .outOfBounds (max target Memory.size)⟩
    m.step.result = .ok () ∧ m.step.state.step.result = .error (.raised fault) := by
  have hpc₁ : m.pc + 2 ≤ Memory.size := Nat.le_of_add_right_le hpc
  have hfirst := Machine.step_of_effect hm hrun hpc₁ hindex rfl
  have hin : (Instruction.effect m.past (.setIndex target)).InBounds :=
    (hm.past hpc₁).effect (hm.ready_past hpc₁) rfl
  have hcause : Instruction.cause? (Instruction.effect m.past (.setIndex target)).past
      (.draw x y n) = some (.outOfBounds (max target Memory.size)) :=
    Instruction.rangeCause?_of_lt hsticks
  have hsecond := Machine.step_of_spells hin hrun hpc hdraw
  rw [hcause] at hsecond
  rw [hfirst, hsecond]
  exact ⟨rfl, rfl⟩

theorem frame_fails_of_draw_past_end (hm : m.InBounds) (hrun : m.status = .running)
    (hpc : m.pc + 2 + 2 ≤ Memory.size) {target : Target} {x y n : Fin 16}
    (hindex : m.nextWord.Spells (.setIndex target))
    (hdraw : (m.memory.wordAt (m.pc + 2)).Spells (.draw x y n))
    (hsticks : Memory.size < target.val + n) (hbatch : 2 ≤ m.settings.perFrame) :
    m.frame.result = .error (.raised ⟨m.pc + 2, .outOfBounds (max target Memory.size)⟩) := by
  obtain ⟨q, hq⟩ : ∃ q, m.settings.perFrame = q + 2 := ⟨_, (Nat.sub_add_cancel hbatch).symm⟩
  have hrunning := Machine.isHalted_of_running hrun
  obtain ⟨hok, hfails⟩ := fails_of_draw_past_end (inBounds_kept.countDown hm hrunning) hrun hpc
    hindex hdraw hsticks
  rw [Machine.frame_of_not_halted hrunning, hq, Outcome.repeated_done_succ,
    Outcome.andThen_of_ok _ hok, Outcome.repeated_done_succ, Outcome.andThen_of_error _ hfails]
  rfl

/-- AFFE D003 with sevens in all registers, by single steps and by the frame. -/
theorem intact_after_fault_of_draw :
    let rom : List UInt8 := [0xAF, 0xFE, 0xD0, 0x03]
    let loaded := (Machine.idle {} (⟨0, 1⟩ : Counter)).loaded rom
    let start := { loaded with v := .replicate 16 7 }
    let fault : Fault := ⟨0x202, .outOfBounds 0x1000⟩
    start.step.state.step.result = .error (.raised fault) ∧
    start.step.state.step.state = start.step.state.stoppedBy fault ∧
    start.frame.result = .error (.raised fault) ∧
    ∃ k < 11, start.frame.state =
      (Outcome.repeated Machine.step k (.done () start.countDown)).state.stoppedBy fault := by
  intro rom loaded start fault
  have hin : start.InBounds := (inBounds_loaded rom _ : loaded.InBounds).of_eq rfl rfl rfl
  have hpc : start.pc + 2 + 2 ≤ Memory.size := show 0x200 + 2 + 2 ≤ 0x1000 by decide
  have hindex : loaded.nextWord.Spells (.setIndex 0xFFE) :=
    Machine.spells_loaded (k := 0) _ (by decide) rfl rfl ⟨rfl, rfl⟩
  have hdraw : (loaded.memory.wordAt (loaded.pc + 2)).Spells (.draw 0 0 3) :=
    Machine.spells_loaded (k := 2) _ (by decide) rfl rfl ⟨rfl, rfl, rfl, rfl⟩
  have hbatch : start.settings.perFrame = 11 := by decide
  obtain ⟨hok, hfails⟩ := fails_of_draw_past_end hin rfl hpc hindex hdraw (by decide)
  have hrun : start.step.state.status = .running := (Machine.step_status_of_ok hok).trans rfl
  have hframe := frame_fails_of_draw_past_end hin rfl hpc hindex hdraw (by decide) (by decide)
  obtain ⟨-, hstep⟩ := (intact_after_fault hrun fault).1 hfails
  obtain ⟨k, hk, -, -, -, -, hstate⟩ := (intact_after_fault rfl fault).2 hframe
  exact ⟨hfails, hstep, hframe, k, Nat.lt_of_lt_of_eq hk hbatch, hstate⟩

/-! ## Rows of a sprite -/

namespace Machine

variable {R : Type} {m : Machine R}

/-- The first of `n` rows that is not in memory is the one at the address `a`. -/
def FirstRowOutside (m : Machine R) (n : Fin 16) (a : Nat) : Prop :=
  ∃ r < n.val, a = m.index + r ∧ 4096 ≤ a ∧ ∀ r' < r, m.index + r' < 4096

theorem FirstRowOutside.exists_row {n : Fin 16} {a : Nat} (h : m.FirstRowOutside n a) :
    ∃ r < n.val, 4096 ≤ m.index + r := by
  obtain ⟨r, hr, rfl, hout, -⟩ := h
  exact ⟨r, hr, hout⟩

/-- A range that sticks out of memory has a first row outside, unless it has no row. -/
theorem firstRowOutside_max {n : Fin 16} (hsticks : 4096 < m.index + n)
    (hrows : n ≠ 0 ∨ m.index ≤ 4096) : m.FirstRowOutside n (max m.index 4096) := by
  have hn : 0 < n.val := by
    rcases hrows with hn | hle
    · exact Nat.pos_of_ne_zero fun h => hn (Fin.ext h)
    · omega
  refine ⟨max m.index 4096 - m.index, ?_, ?_, Nat.le_max_right _ _, ?_⟩
  · omega
  · omega
  · intro r hr
    omega

/-- Asked for at once, rows fail where the first of them would that is not in memory. -/
theorem rangeCause?_rows {n : Fin 16} (hrows : n ≠ 0 ∨ m.index ≤ 4096) :
    (∃ a, Instruction.rangeCause? m.index n = some (.outOfBounds a) ∧ m.FirstRowOutside n a) ∨
    (Instruction.rangeCause? m.index n = none ∧ ¬∃ r < n.val, 4096 ≤ m.index + r) := by
  rcases Nat.lt_or_ge 4096 (m.index + n) with hsticks | hfits
  · exact .inl ⟨_, Instruction.rangeCause?_of_lt hsticks, firstRowOutside_max hsticks hrows⟩
  · refine .inr ⟨Instruction.rangeCause?_of_le hfits, ?_⟩
    rintro ⟨r, hr, hout⟩
    omega

theorem stopCause?_of_draw (hpc : m.pc ≤ 4094) (hword : m.nextWord.kind = 0xD) :
    m.stopCause? = Instruction.rangeCause? m.index m.nextWord.n := by
  have hw : m.memory.word m.pc = .ok m.nextWord :=
    m.memory.word_of_le (Nat.add_le_add_right hpc 2)
  exact stopCause?_of_spells (i := .draw m.nextWord.x m.nextWord.y m.nextWord.n) hw
    ⟨hword, rfl, rfl, rfl⟩

end Machine

/-- DXYN fails just if one of its rows is not in memory, and names the first such; only a
sprite without rows, which asks for nothing, fails too from an I beyond the end. -/
theorem draw_faults_iff_row_outside (hm : Reachable H m) (hrun : m.status = .running)
    (hpc : m.pc ≤ 4094) (hword : m.nextWord.kind = 0xD) :
    (m.nextWord.n ≠ 0 ∨ m.index ≤ 4096 →
      ((∃ fault, m.step.result = .error (.raised fault)) ↔
        ∃ r < m.nextWord.n.val, 4096 ≤ m.index + r) ∧
      (∀ fault, m.step.result = .error (.raised fault) →
        ∃ a, fault = ⟨m.pc, .outOfBounds a⟩ ∧ m.FirstRowOutside m.nextWord.n a) ∧
      ((¬∃ r < m.nextWord.n.val, 4096 ≤ m.index + r) → m.step.result = .ok ())) ∧
    (m.nextWord.n = 0 → 4096 < m.index →
      m.step.result = .error (.raised ⟨m.pc, .outOfBounds m.index⟩)) := by
  have hresult := Machine.step_result hm.inBounds hrun
  rw [Machine.stopCause?_of_draw hpc hword] at hresult
  constructor
  · intro hrows
    rcases Machine.rangeCause?_rows hrows with ⟨a, hcause, hfirst⟩ | ⟨hcause, hnone⟩
    · rw [hcause] at hresult
      have hrow := hfirst.exists_row
      refine ⟨⟨fun _ => hrow, fun _ => ⟨_, hresult⟩⟩, ?_, fun hnone => absurd hrow hnone⟩
      intro fault hfault
      rw [hresult] at hfault
      cases hfault
      exact ⟨a, rfl, hfirst⟩
    · rw [hcause] at hresult
      have hok : ∀ fault, m.step.result ≠ .error (.raised fault) := by
        intro fault hfault
        rw [hresult] at hfault
        cases hfault
      refine ⟨⟨?_, fun hrow => absurd hrow hnone⟩, ?_, fun _ => hresult⟩
      · rintro ⟨fault, hfault⟩
        exact absurd hfault (hok fault)
      · intro fault hfault
        exact absurd hfault (hok fault)
  · -- there is no byte in the range, but where it ends is compared with the size all the same
    intro _ hbeyond
    rw [Instruction.rangeCause?_of_lt (Nat.lt_add_right _ hbeyond)] at hresult
    rw [hresult, Memory.size_eq, Nat.max_eq_left (Nat.le_of_lt hbeyond)]

/-- AFFE D003 asks for three rows, of which the last is not there. -/
theorem draw_faults_iff_row_outside_of_last :
    let rom : List UInt8 := [0xAF, 0xFE, 0xD0, 0x03]
    let m := ((Machine.idle {} (⟨0, 1⟩ : Counter)).loaded rom).step.state
    (∃ r < m.nextWord.n.val, 4096 ≤ m.index + r) ∧
    ∃ a, m.step.result = .error (.raised ⟨m.pc, .outOfBounds a⟩) ∧
      m.FirstRowOutside m.nextWord.n a := by
  intro rom m
  let loaded := (Machine.idle {} (⟨0, 1⟩ : Counter)).loaded rom
  have hreach : Reachable Terminal loaded := (Reachable.idle _ _).loaded (by decide)
  have hpc : loaded.pc + 2 ≤ Memory.size := show 0x200 + 2 ≤ 0x1000 by decide
  have hindex : loaded.nextWord.Spells (.setIndex 0xFFE) :=
    Machine.spells_loaded (k := 0) _ (by decide) rfl rfl ⟨rfl, rfl⟩
  have hdraw : loaded.memory.wordAt (loaded.pc + 2) = .ofBytes 0xD0 0x03 :=
    Machine.wordAt_loaded (k := 2) _ (by decide) rfl rfl
  have hm : m = Instruction.effect loaded.past (.setIndex 0xFFE) := by
    rw [show m = loaded.step.state from rfl,
      Machine.step_of_effect hreach.inBounds rfl hpc hindex rfl]
  have hword : m.nextWord = .ofBytes 0xD0 0x03 := by
    rw [hm]
    exact hdraw
  have hat : m.index = 0xFFE := by
    rw [hm]
    rfl
  have hrun : m.status = .running := by
    rw [hm]
    rfl
  have hle : m.pc ≤ 4094 := by
    rw [hm]
    decide
  have hkind : m.nextWord.kind = 0xD := by
    rw [hword]
    rfl
  have hrow : ∃ r < m.nextWord.n.val, 4096 ≤ m.index + r := by
    rw [hword, hat]
    exact ⟨2, by decide, by decide⟩
  have hlaw := (draw_faults_iff_row_outside hreach.step hrun hle hkind).1
    (.inr (hat ▸ (by decide : 0xFFE ≤ 4096)))
  obtain ⟨fault, hfault⟩ := hlaw.1.mpr hrow
  obtain ⟨a, rfl, hfirst⟩ := hlaw.2.1 fault hfault
  exact ⟨hrow, a, hfault, hfirst⟩

/-- ANNN, 6XNN and FX1E lead to the sum of the two operands, past memory or not. -/
theorem index_after_addIndex (hm : Reachable H m) (hrun : m.status = .running)
    (hpc : m.pc + 2 + 2 + 2 ≤ Memory.size) {target : Target} {x : Fin 16} {nn : UInt8}
    (hindex : m.nextWord.Spells (.setIndex target))
    (hbyte : (m.memory.wordAt (m.pc + 2)).Spells (.setByte x nn))
    (hadd : (m.memory.wordAt (m.pc + 2 + 2)).Spells (.addIndex x)) :
    let reached := m.step.state.step.state.step.state
    reached.status = .running ∧ reached.pc = m.pc + 2 + 2 + 2 ∧ reached.memory = m.memory ∧
      reached.index = target.val + nn.toNat := by
  have hpc₂ : m.pc + 2 + 2 ≤ Memory.size := Nat.le_of_add_right_le hpc
  have hpc₁ : m.pc + 2 ≤ Memory.size := Nat.le_of_add_right_le hpc₂
  have hm₁ := hm.step
  rw [Machine.step_of_effect hm.inBounds hrun hpc₁ hindex rfl] at hm₁ ⊢
  have hm₂ := hm₁.step
  rw [Machine.step_of_effect hm₁.inBounds hrun hpc₂ hbyte rfl] at hm₂ ⊢
  generalize hs : Instruction.effect (Instruction.effect m.past (.setIndex target)).past
    (.setByte x nn) = s at hm₂ ⊢
  have hat : s.past.index + (s.past.v.get x).toNat = target.val + nn.toNat := by
    rw [← hs]
    exact congrArg (fun b : UInt8 => target.val + b.toNat) (Machine.get_setV _ x nn)
  have hcause : Instruction.cause? s.past (.addIndex x) = none := by
    have hnn := nn.toNat_lt
    exact if_pos (by omega)
  rw [Machine.step_of_effect hm₂.inBounds (hs ▸ hrun) (hs ▸ hpc) (hs ▸ hadd) hcause,
    Instruction.effect_addIndex]
  exact ⟨hs ▸ hrun, hs ▸ rfl, hs ▸ rfl, hat⟩

/-- AFFF 60FF F01E D000 asks for no row, and fails. -/
theorem no_rows_fail_past_memory :
    let rom : List UInt8 := [0xAF, 0xFF, 0x60, 0xFF, 0xF0, 0x1E, 0xD0, 0x00]
    let m := ((Machine.idle {} (⟨0, 1⟩ : Counter)).loaded rom).step.state.step.state.step.state
    Reachable Terminal m ∧ m.status = .running ∧ m.pc ≤ 4094 ∧ m.nextWord.kind = 0xD ∧
    (¬∃ r < m.nextWord.n.val, 4096 ≤ m.index + r) ∧
    m.step.result = .error (.raised ⟨0x206, .outOfBounds 0x10FE⟩) := by
  intro rom m
  let loaded := (Machine.idle {} (⟨0, 1⟩ : Counter)).loaded rom
  have hreach : Reachable Terminal loaded := (Reachable.idle _ _).loaded (by decide)
  have hpc : loaded.pc + 2 + 2 + 2 ≤ Memory.size := show 0x200 + 2 + 2 + 2 ≤ 0x1000 by decide
  have hindex : loaded.nextWord.Spells (.setIndex 0xFFF) :=
    Machine.spells_loaded (k := 0) _ (by decide) rfl rfl ⟨rfl, rfl⟩
  have hbyte : (loaded.memory.wordAt (loaded.pc + 2)).Spells (.setByte 0 0xFF) :=
    Machine.spells_loaded (k := 2) _ (by decide) rfl rfl ⟨rfl, rfl, rfl⟩
  have hadd : (loaded.memory.wordAt (loaded.pc + 2 + 2)).Spells (.addIndex 0) :=
    Machine.spells_loaded (k := 4) _ (by decide) rfl rfl ⟨rfl, rfl, rfl⟩
  have hdraw : loaded.memory.wordAt (loaded.pc + 2 + 2 + 2) = .ofBytes 0xD0 0x00 :=
    Machine.wordAt_loaded (k := 6) _ (by decide) rfl rfl
  have hm : Reachable Terminal m := hreach.step.step.step
  obtain ⟨hrun, hat, hmemory, hsum⟩ := index_after_addIndex hreach rfl hpc hindex hbyte hadd
  have hmpc : m.pc = 0x206 := hat
  have hmindex : m.index = 0x10FE := hsum
  have hword : m.nextWord = .ofBytes 0xD0 0x00 := by
    rw [Machine.nextWord, show m.memory = loaded.memory from hmemory,
      show m.pc = loaded.pc + 2 + 2 + 2 from hat]
    exact hdraw
  have hkind : m.nextWord.kind = 0xD := by
    rw [hword]
    rfl
  have hnone : m.nextWord.n = 0 := by
    rw [hword]
    rfl
  have hle : m.pc ≤ 4094 := hmpc ▸ by decide
  have hresult := Machine.step_result hm.inBounds hrun
  rw [Machine.stopCause?_of_draw hle hkind, hnone, hmindex, hmpc,
    Instruction.rangeCause?_of_lt (by decide)] at hresult
  refine ⟨hm, hrun, hle, hkind, ?_, hresult⟩
  rintro ⟨r, hr, -⟩
  rw [hnone] at hr
  exact absurd hr (Nat.not_lt_zero r)

end Chip8
