/-
# `Chip8.Proofs.RegisterTransfer` — registers to memory and back

With its range in memory a transfer comes to its end on any machine:

              takes          puts it into       I
    FX55      V0 to VX       I to I + X         past the range, or as it was
    FX65      I to I + X     V0 to VX           past the range, or as it was

Where I ends is the dialect's to say.  With I set back each undoes the other
(`store_load_inverse`).  Without, the next transfer goes on where the first one ended, if
the dialect moves I, and no byte is the business of both: `Machine.Touches`.
-/
import Chip8.Proofs.OpcodeTable

namespace Chip8

def Word.MovesRegisters (w : Word) (x : Fin 16) : Prop :=
  w.Spells (.storeRegisters x) ∨ w.Spells (.loadRegisters x)

namespace Machine

variable {R : Type}

/-! ## One transfer -/

section Transfer
variable [RandomSource R] (m : Machine R) {x : Fin 16}

theorem index_store (x : Fin 16) :
    (Instruction.effect m (.storeRegisters x)).index = (m.pass x).index := rfl

theorem index_load (x : Fin 16) :
    (Instruction.effect m (.loadRegisters x)).index = (m.pass x).index := by
  simp only [Instruction.effect, pass]

theorem memory_load (x : Fin 16) :
    (Instruction.effect m (.loadRegisters x)).memory = m.memory := by
  rw [Instruction.effect_onRegisters]
  trivial

theorem executeWord_of_store {w : Word} (hw : w.Spells (.storeRegisters x))
    (hfits : m.index + x + 1 ≤ 4096) :
    executeWord w m = .done () (Instruction.effect m (.storeRegisters x)) := by
  rw [executeWord_of_spells hw]
  exact m.storeRegisters_of_le hfits

theorem executeWord_of_load {w : Word} (hw : w.Spells (.loadRegisters x))
    (hfits : m.index + x + 1 ≤ 4096) :
    executeWord w m = .done () (Instruction.effect m (.loadRegisters x)) := by
  rw [executeWord_of_spells hw]
  exact m.loadRegisters_of_le hfits

theorem byteAt_store {k : Fin 16} (hk : k ≤ x) (hin : m.index + k < Memory.size) :
    (Instruction.effect m (.storeRegisters x)).memory.byteAt (m.index + k) = m.v.get k := by
  show (m.memory.patch m.index (m.v.toList.take (x + 1))).byteAt (m.index + k) = _
  rw [patch_registers, Memory.byteAt_ofBytes _ hin,
    dif_pos ⟨Nat.le_add_right _ _, Nat.add_le_add_left hk m.index⟩]
  simp only [Nat.add_sub_cancel_left]
  rfl

theorem byteAt_store_of_outside {a : Nat} (ha : a < Memory.size)
    (hout : a < m.index ∨ m.index + x < a) :
    (Instruction.effect m (.storeRegisters x)).memory.byteAt a = m.memory.byteAt a := by
  show (m.memory.patch m.index (m.v.toList.take (x + 1))).byteAt a = _
  rw [patch_registers, Memory.byteAt_ofBytes _ ha, dif_neg (by omega)]

theorem get_load (x k : Fin 16) :
    (Instruction.effect m (.loadRegisters x)).v.get k =
      if k ≤ x then m.memory.byteAt (m.index + k) else m.v.get k := by
  show (Vector.ofFn fun i : Fin 16 =>
    (m.memory.bytesFrom m.index (x + 1))[i.val]?.getD (m.v.get i)).get k = _
  rw [load_registers]
  exact Vector.getElem_ofFn k.isLt

theorem exists_register_of_range {addr a : Nat} (hfirst : addr ≤ a) (hlast : a ≤ addr + x) :
    ∃ k ≤ x, a = addr + k.val := by
  obtain ⟨d, rfl⟩ := Nat.exists_eq_add_of_le hfirst
  have hd : d ≤ x.val := Nat.le_of_add_le_add_left hlast
  exact ⟨⟨d, Nat.lt_of_le_of_lt hd x.isLt⟩, hd, rfl⟩

/-- What was stored is loaded, whatever the registers are by then. -/
theorem get_load_store (hfits : m.index + x + 1 ≤ 4096) (v : Vector UInt8 16) (k : Fin 16) :
    let stored := Instruction.effect m (.storeRegisters x)
    (Instruction.effect { stored with v := v, index := m.index } (.loadRegisters x)).v.get k =
      if k ≤ x then m.v.get k else v.get k := by
  intro stored
  rw [get_load]
  by_cases hk : k ≤ x
  · have hin : m.index + k < Memory.size :=
      Nat.lt_of_le_of_lt (Nat.add_le_add_left hk m.index) hfits
    rw [if_pos hk, if_pos hk]
    exact m.byteAt_store hk hin
  · rw [if_neg hk, if_neg hk]

/-- What was loaded is there already. -/
theorem memory_store_load (m : Machine R) (x : Fin 16) :
    let loaded := Instruction.effect m (.loadRegisters x)
    (Instruction.effect { loaded with index := m.index } (.storeRegisters x)).memory =
      m.memory := by
  intro loaded
  let before : Machine R := { loaded with index := m.index }
  have hmemory : before.memory = m.memory := m.memory_load x
  apply Memory.ext_byteAt
  intro a ha
  by_cases h : m.index ≤ a ∧ a ≤ m.index + x
  · obtain ⟨k, hk, rfl⟩ := exists_register_of_range h.1 h.2
    have hregister := m.get_load x k
    rw [if_pos hk] at hregister
    exact (before.byteAt_store hk ha).trans hregister
  · have hout : a < m.index ∨ m.index + x < a := by omega
    rw [← hmemory]
    exact before.byteAt_store_of_outside ha hout

theorem index_after_transfer {w : Word} (hw : w.MovesRegisters x)
    (hfits : m.index + x + 1 ≤ 4096) :
    (executeWord w m).state.index =
      if m.settings.dialect.advancesIndex then m.index + x + 1 else m.index := by
  show _ = (m.pass x).index
  rcases hw with hstore | hload
  · rw [m.executeWord_of_store hstore hfits]
    exact m.index_store x
  · rw [m.executeWord_of_load hload hfits]
    exact m.index_load x

theorem load_after_store {ws wl : Word} (hs : ws.Spells (.storeRegisters x))
    (hl : wl.Spells (.loadRegisters x)) (hfits : m.index + x + 1 ≤ 4096) (v : Vector UInt8 16) :
    let stored := (executeWord ws m).state
    let back := executeWord wl { stored with v := v, index := m.index }
    back.result = .ok () ∧ back.state.memory = stored.memory ∧
      ∀ k, back.state.v.get k = if k ≤ x then m.v.get k else v.get k := by
  intro stored back
  have hstored : stored = Instruction.effect m (.storeRegisters x) :=
    congrArg Outcome.state (m.executeWord_of_store hs hfits)
  have hback : back = .done () (Instruction.effect _ (.loadRegisters x)) :=
    executeWord_of_load _ hl hfits
  rw [hback]
  refine ⟨rfl, memory_load _ x, ?_⟩
  intro k
  rw [hstored]
  exact m.get_load_store hfits v k

theorem store_after_load {ws wl : Word} (hs : ws.Spells (.storeRegisters x))
    (hl : wl.Spells (.loadRegisters x)) (hfits : m.index + x + 1 ≤ 4096) :
    let loaded := (executeWord wl m).state
    let back := executeWord ws { loaded with index := m.index }
    back.result = .ok () ∧ back.state.memory = m.memory := by
  intro loaded back
  have hloaded : loaded = Instruction.effect m (.loadRegisters x) :=
    congrArg Outcome.state (m.executeWord_of_load hl hfits)
  have hback : back = .done () (Instruction.effect _ (.storeRegisters x)) :=
    executeWord_of_store _ hs hfits
  rw [hback, hloaded]
  exact ⟨rfl, m.memory_store_load x⟩

end Transfer

/-! ## Bytes that are touched -/

def poke (m : Machine R) (a : Nat) (b : UInt8) : Machine R :=
  { m with memory := m.memory.patch a [b] }

theorem byteAt_poke (m : Machine R) {a : Nat} (ha : a < Memory.size) (b : UInt8) :
    (m.poke a b).memory.byteAt a = b := by
  rw [poke, Memory.byteAt_patch _ _ _ ha, if_pos (Nat.le_refl a), Nat.sub_self]
  rfl

theorem bytesFrom_poke (m : Machine R) {a addr len : Nat} (hfits : addr + len ≤ Memory.size)
    (h : a < addr ∨ addr + len ≤ a) (b : UInt8) :
    (m.poke a b).memory.bytesFrom addr len = m.memory.bytesFrom addr len := by
  apply List.map_congr_left
  intro k hk
  have hlt := List.mem_range.mp hk
  rw [poke, Memory.byteAt_patch_eq_ite _ _ _ (by omega), if_neg]
  rw [List.length_singleton]
  omega

variable [RandomSource R] (m : Machine R) {x : Fin 16}

/-- Some change of the byte at `a` does not come to the same before the word is executed
and after: the word reads the byte or writes it. -/
def Touches (w : Word) (a : Nat) : Prop :=
  ∃ b, (executeWord w (m.poke a b)).state ≠ (executeWord w m).state.poke a b

theorem store_poke {a : Nat} (h : a < m.index ∨ m.index + x < a) (b : UInt8) :
    Instruction.effect (m.poke a b) (.storeRegisters x) =
      (Instruction.effect m (.storeRegisters x)).poke a b := by
  have hcomm : (m.memory.patch a [b]).patch m.index (m.v.toList.take (x + 1)) =
      (m.memory.patch m.index (m.v.toList.take (x + 1))).patch a [b] := by
    apply Memory.patch_comm
    rw [length_registers]
    exact h
  exact congrArg (fun memory => pass { m with memory := memory } x) hcomm

theorem load_poke {a : Nat} (hfits : m.index + x + 1 ≤ 4096)
    (h : a < m.index ∨ m.index + x < a) (b : UInt8) :
    Instruction.effect (m.poke a b) (.loadRegisters x) =
      (Instruction.effect m (.loadRegisters x)).poke a b := by
  have hin : m.index + (x + 1) ≤ Memory.size := hfits
  have hbytes := m.bytesFrom_poke hin h b
  show pass { m.poke a b with
    v := .ofFn fun i : Fin 16 =>
      ((m.poke a b).memory.bytesFrom m.index (x + 1))[i.val]?.getD (m.v.get i) } x = _
  rw [hbytes]
  rfl

theorem executeWord_poke {w : Word} (hw : w.MovesRegisters x) (hfits : m.index + x + 1 ≤ 4096)
    {a : Nat} (h : a < m.index ∨ m.index + x < a) (b : UInt8) :
    (executeWord w (m.poke a b)).state = (executeWord w m).state.poke a b := by
  rcases hw with hstore | hload
  · rw [m.executeWord_of_store hstore hfits, (m.poke a b).executeWord_of_store hstore hfits]
    exact m.store_poke h b
  · rw [m.executeWord_of_load hload hfits, (m.poke a b).executeWord_of_load hload hfits]
    exact m.load_poke hfits h b

/-- A store writes the same byte over any other. -/
theorem eq_of_store_poke {k : Fin 16} (hk : k ≤ x) (hin : m.index + k < Memory.size) {b : UInt8}
    (h : Instruction.effect (m.poke (m.index + k) b) (.storeRegisters x) =
      (Instruction.effect m (.storeRegisters x)).poke (m.index + k) b) :
    b = m.v.get k := by
  have hpoked := (m.poke (m.index + k) b).byteAt_store hk hin
  rw [h] at hpoked
  exact (byteAt_poke _ hin b).symm.trans hpoked

/-- A load brings any other byte into a register. -/
theorem eq_of_load_poke {k : Fin 16} (hk : k ≤ x) (hin : m.index + k < Memory.size) {b : UInt8}
    (h : Instruction.effect (m.poke (m.index + k) b) (.loadRegisters x) =
      (Instruction.effect m (.loadRegisters x)).poke (m.index + k) b) :
    b = m.memory.byteAt (m.index + k) := by
  have hpoked := (m.poke (m.index + k) b).get_load x k
  have hplain := m.get_load x k
  rw [if_pos hk] at hpoked hplain
  rw [h] at hpoked
  exact (byteAt_poke m hin b).symm.trans (hpoked.symm.trans hplain)

/-- In the range no two bytes come to the same before and after. -/
theorem exists_only_poke {w : Word} (hw : w.MovesRegisters x) (hfits : m.index + x + 1 ≤ 4096)
    {k : Fin 16} (hk : k ≤ x) :
    ∃ c, ∀ b, (executeWord w (m.poke (m.index + k) b)).state =
      (executeWord w m).state.poke (m.index + k) b → b = c := by
  have hin : m.index + k < Memory.size :=
    Nat.lt_of_le_of_lt (Nat.add_le_add_left hk m.index) hfits
  rcases hw with hstore | hload
  · refine ⟨m.v.get k, fun b h => m.eq_of_store_poke (x := x) hk hin ?_⟩
    rw [m.executeWord_of_store hstore hfits, (m.poke _ b).executeWord_of_store hstore hfits] at h
    exact h
  · refine ⟨m.memory.byteAt (m.index + k), fun b h => m.eq_of_load_poke hk hin ?_⟩
    rw [m.executeWord_of_load hload hfits, (m.poke _ b).executeWord_of_load hload hfits] at h
    exact h

theorem touches_iff {w : Word} (hw : w.MovesRegisters x) (hfits : m.index + x + 1 ≤ 4096)
    (a : Nat) : m.Touches w a ↔ m.index ≤ a ∧ a ≤ m.index + x := by
  constructor
  · rintro ⟨b, hb⟩
    apply Decidable.byContradiction
    intro hout
    exact hb (m.executeWord_poke hw hfits (by omega) b)
  · rintro ⟨hfirst, hlast⟩
    obtain ⟨k, hk, rfl⟩ := exists_register_of_range hfirst hlast
    obtain ⟨c, hc⟩ := m.exists_only_poke hw hfits hk
    have hne : c + 1 ≠ c := by simp
    exact ⟨c + 1, fun h => hne (hc (c + 1) h)⟩

/-- Where I moves on, the next transfer has the range after that of the first. -/
theorem touches_next_iff {w : Word} (hw : w.MovesRegisters x)
    (hmoves : m.settings.dialect.advancesIndex = true) {next : Word} {y : Fin 16}
    (hnext : next.MovesRegisters y) (hfits : m.index + x + 1 + y + 1 ≤ 4096) (a : Nat) :
    (executeWord w m).state.Touches next a ↔
      m.index + x + 1 ≤ a ∧ a ≤ m.index + x + 1 + y := by
  have hindex : (executeWord w m).state.index = m.index + x + 1 := by
    rw [m.index_after_transfer hw (by omega), if_pos hmoves]
  have hrange := (executeWord w m).state.touches_iff hnext (by rw [hindex]; exact hfits) a
  rw [hindex] at hrange
  exact hrange

end Machine

/-! ## There and back -/

variable {R : Type} [RandomSource R]

/-- Each transfer undoes the other: what was stored is loaded again, and what was loaded is
stored where it came from.  Nothing beside the range changes, I ends where the dialect has
it, and if that is past the range, the next transfer's range begins there. -/
theorem store_load_inverse (m : Machine R) {x : Fin 16} {ws wl : Word}
    (hs : ws.Spells (.storeRegisters x)) (hl : wl.Spells (.loadRegisters x))
    (hfits : m.index + x + 1 ≤ 4096) :
    let moved := if m.settings.dialect.advancesIndex then m.index + x + 1 else m.index
    let stored := Machine.executeWord ws m
    let loaded := Machine.executeWord wl m
    (stored.result = .ok () ∧ stored.state.index = moved ∧
      (∀ a < 4096, (a < m.index ∨ m.index + x < a) →
        stored.state.memory.byteAt a = m.memory.byteAt a) ∧
      ∀ v : Vector UInt8 16,
        let back := Machine.executeWord wl { stored.state with v := v, index := m.index }
        back.result = .ok () ∧ back.state.index = moved ∧
        back.state.memory = stored.state.memory ∧
        ∀ k, back.state.v.get k = if k ≤ x then m.v.get k else v.get k) ∧
    (loaded.result = .ok () ∧ loaded.state.index = moved ∧ loaded.state.memory = m.memory ∧
      let back := Machine.executeWord ws { loaded.state with index := m.index }
      back.result = .ok () ∧ back.state.index = moved ∧ back.state.memory = m.memory) ∧
    (m.settings.dialect.advancesIndex = true →
      ∀ (w next : Word) (y : Fin 16), w.MovesRegisters x → next.MovesRegisters y →
        m.index + x + 1 + y + 1 ≤ 4096 →
        (∀ a, m.Touches w a ↔ m.index ≤ a ∧ a ≤ m.index + x) ∧
        ∀ a, (Machine.executeWord w m).state.Touches next a ↔
          m.index + x + 1 ≤ a ∧ a ≤ m.index + x + 1 + y) := by
  intro moved stored loaded
  have hmoved : ∀ (s : Machine R) {w : Word}, w.MovesRegisters x → s.index = m.index →
      s.settings = m.settings → (Machine.executeWord w s).state.index = moved := by
    intro s w hw hindex hsettings
    rw [s.index_after_transfer hw (by rw [hindex]; exact hfits), hindex, hsettings]
  have hsame : ∀ w : Word, (Machine.executeWord w m).state.settings = m.settings := by
    intro w
    rw [Machine.executeWord_state]
  refine ⟨⟨?_, hmoved m (.inl hs) rfl rfl, ?_, ?_⟩, ⟨?_, hmoved m (.inr hl) rfl rfl, ?_, ?_⟩, ?_⟩
  · rw [show stored = _ from m.executeWord_of_store hs hfits]
    rfl
  · intro a ha hout
    rw [show stored = _ from m.executeWord_of_store hs hfits]
    exact m.byteAt_store_of_outside ha hout
  · intro v back
    obtain ⟨hok, hmemory, hv⟩ := m.load_after_store hs hl hfits v
    exact ⟨hok, hmoved _ (.inr hl) rfl (hsame ws), hmemory, hv⟩
  · rw [show loaded = _ from m.executeWord_of_load hl hfits]
    rfl
  · rw [show loaded = _ from m.executeWord_of_load hl hfits]
    exact m.memory_load x
  · intro back
    obtain ⟨hok, hmemory⟩ := m.store_after_load hs hl hfits
    exact ⟨hok, hmoved _ (.inl hs) rfl (hsame wl), hmemory⟩
  · intro hmoves w next y hw hnext hroom
    exact ⟨m.touches_iff hw hfits, m.touches_next_iff hw hmoves hnext hroom⟩

/-- F955 and F965 near the top of memory, I being moved; F565 would go on with the last
six bytes. -/
theorem store_load_inverse_of_top :
    let idle := Machine.idle { dialect := .cosmacVip } (⟨0, 1⟩ : Counter)
    let m := { idle with index := 0xFF0 }.setV 9 7
    let stored := Machine.executeWord (.ofBytes 0xF9 0x55) m
    let back := Machine.executeWord (.ofBytes 0xF9 0x65)
      { stored.state with v := .replicate 16 1, index := m.index }
    back.result = .ok () ∧ back.state.index = 0xFFA ∧
    back.state.v.get 9 = 7 ∧ back.state.v.get 0xA = 1 ∧
    stored.state.Touches (.ofBytes 0xF5 0x65) 0xFFF ∧
    ¬stored.state.Touches (.ofBytes 0xF5 0x65) 0xFF9 := by
  intro idle m stored back
  have hs : (Word.ofBytes 0xF9 0x55).Spells (.storeRegisters 9) := ⟨rfl, rfl, rfl⟩
  have hl : (Word.ofBytes 0xF9 0x65).Spells (.loadRegisters 9) := ⟨rfl, rfl, rfl⟩
  have hnext : (Word.ofBytes 0xF5 0x65).MovesRegisters 5 := .inr ⟨rfl, rfl, rfl⟩
  obtain ⟨⟨-, -, -, hback⟩, -, htouches⟩ := store_load_inverse m hs hl (by decide)
  obtain ⟨hok, hindex, -, hv⟩ := hback (.replicate 16 1)
  obtain ⟨-, htouches⟩ := htouches rfl _ _ _ (.inl hs) hnext (by decide)
  refine ⟨hok, hindex, hv 9, hv 0xA, ?_, ?_⟩
  · exact (htouches 0xFFF).mpr (by decide)
  · exact fun h => absurd ((htouches 0xFF9).mp h) (by decide)

end Chip8
