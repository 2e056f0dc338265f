/-
# `Chip8.Proofs.Decode` — which words spell which instructions

`Word.Spells` is the table of words read from the instructions' side: for
each instruction, the digits of the words that spell it.  Decoding finds
exactly the instruction a word spells (`decode?_eq_some_iff`), so no word
spells two, and the words that spell none are those of `Unassigned`
(`decode?_eq_none_iff`):

    5XYN, 9XYN   N ≠ 0
    8XYN         N from 8 to D, or F
    EXNN         NN neither 9E nor A1
    FXNN         NN none of 07 0A 15 18 1E 29 33 55 65
-/
import Chip8.Instruction.Decode

namespace Chip8

/-! ## Digits -/

namespace Word

variable (w : Word)

theorem toNat_nn : w.nn.toNat = 0x10 * w.y.val + w.n.val := by
  simp only [nn, y, n, UInt8.toNat_ofNat']
  omega

theorem val_nnn : w.nnn.val = 0x100 * w.x.val + w.nn.toNat := by
  rw [toNat_nn]
  simp only [nnn, x, y, n]
  omega

end Word

def Operation.digit : Operation → Fin 16
  | .copy => 0x0
  | .or => 0x1
  | .and => 0x2
  | .xor => 0x3
  | .add => 0x4
  | .sub => 0x5
  | .shiftRight => 0x6
  | .subFrom => 0x7
  | .shiftLeft => 0xE

namespace Word

/-- The digits of the words that spell an instruction. -/
def Spells (w : Word) : Instruction → Prop
  | .clear => w = 0x00E0
  | .ret => w = 0x00EE
  | .native target => w.kind = 0x0 ∧ w ≠ 0x00E0 ∧ w ≠ 0x00EE ∧ target = w.nnn
  | .jump target => w.kind = 0x1 ∧ target = w.nnn
  | .call target => w.kind = 0x2 ∧ target = w.nnn
  | .skipIfByte x nn => w.kind = 0x3 ∧ x = w.x ∧ nn = w.nn
  | .skipUnlessByte x nn => w.kind = 0x4 ∧ x = w.x ∧ nn = w.nn
  | .skipIfEqual x y => w.kind = 0x5 ∧ w.n = 0 ∧ x = w.x ∧ y = w.y
  | .setByte x nn => w.kind = 0x6 ∧ x = w.x ∧ nn = w.nn
  | .addByte x nn => w.kind = 0x7 ∧ x = w.x ∧ nn = w.nn
  | .combine op x y => w.kind = 0x8 ∧ w.n = op.digit ∧ x = w.x ∧ y = w.y
  | .skipUnlessEqual x y => w.kind = 0x9 ∧ w.n = 0 ∧ x = w.x ∧ y = w.y
  | .setIndex target => w.kind = 0xA ∧ target = w.nnn
  | .jumpOffset target => w.kind = 0xB ∧ target = w.nnn
  | .random x nn => w.kind = 0xC ∧ x = w.x ∧ nn = w.nn
  | .draw x y n => w.kind = 0xD ∧ x = w.x ∧ y = w.y ∧ n = w.n
  | .skipIfHeld x => w.kind = 0xE ∧ w.nn = 0x9E ∧ x = w.x
  | .skipUnlessHeld x => w.kind = 0xE ∧ w.nn = 0xA1 ∧ x = w.x
  | .getDelay x => w.kind = 0xF ∧ w.nn = 0x07 ∧ x = w.x
  | .awaitKey x => w.kind = 0xF ∧ w.nn = 0x0A ∧ x = w.x
  | .setDelay x => w.kind = 0xF ∧ w.nn = 0x15 ∧ x = w.x
  | .setSound x => w.kind = 0xF ∧ w.nn = 0x18 ∧ x = w.x
  | .addIndex x => w.kind = 0xF ∧ w.nn = 0x1E ∧ x = w.x
  | .pointGlyph x => w.kind = 0xF ∧ w.nn = 0x29 ∧ x = w.x
  | .storeDecimal x => w.kind = 0xF ∧ w.nn = 0x33 ∧ x = w.x
  | .storeRegisters x => w.kind = 0xF ∧ w.nn = 0x55 ∧ x = w.x
  | .loadRegisters x => w.kind = 0xF ∧ w.nn = 0x65 ∧ x = w.x

def Unassigned (w : Word) : Prop :=
  ((w.kind = 0x5 ∨ w.kind = 0x9) ∧ w.n ≠ 0) ∨
  (w.kind = 0x8 ∧ (0x8 ≤ w.n ∧ w.n ≤ 0xD ∨ w.n = 0xF)) ∨
  (w.kind = 0xE ∧ w.nn ≠ 0x9E ∧ w.nn ≠ 0xA1) ∨
  (w.kind = 0xF ∧ w.nn ∉ [0x07, 0x0A, 0x15, 0x18, 0x1E, 0x29, 0x33, 0x55, 0x65])

end Word

/-! ## Decoding -/

namespace Instruction

theorem operation?_digit (op : Operation) : operation? op.digit = some op := by
  cases op <;> rfl

theorem eq_digit_of_operation? {n : Fin 16} {op : Operation} (h : operation? n = some op) :
    n = op.digit := by
  revert n op
  decide

theorem operation?_eq_none_iff : ∀ {n : Fin 16},
    operation? n = none ↔ 0x8 ≤ n ∧ n ≤ 0xD ∨ n = 0xF := by
  decide

variable {w : Word}

theorem decode?_of_spells {i : Instruction} (h : w.Spells i) : decode? w = some i := by
  cases i with
  | clear | ret => cases h; rfl
  | native _ =>
      obtain ⟨hk, hclear, hret, rfl⟩ := h
      rw [decode?, hk, if_neg hclear, if_neg hret]
      rfl
  | jump _ | call _ | setIndex _ | jumpOffset _ =>
      obtain ⟨hk, rfl⟩ := h
      rw [decode?, hk]
      rfl
  | skipIfByte _ _ | skipUnlessByte _ _ | setByte _ _ | addByte _ _ | random _ _ =>
      obtain ⟨hk, rfl, rfl⟩ := h
      rw [decode?, hk]
      rfl
  | skipIfEqual _ _ | skipUnlessEqual _ _ =>
      obtain ⟨hk, hn, rfl, rfl⟩ := h
      rw [decode?, hk, hn]
      rfl
  | combine op _ _ =>
      obtain ⟨hk, hn, rfl, rfl⟩ := h
      rw [decode?, hk, hn, operation?_digit]
      rfl
  | draw _ _ _ =>
      obtain ⟨hk, rfl, rfl, rfl⟩ := h
      rw [decode?, hk]
      rfl
  | skipIfHeld _ | skipUnlessHeld _ | getDelay _ | awaitKey _ | setDelay _ | setSound _
  | addIndex _ | pointGlyph _ | storeDecimal _ | storeRegisters _ | loadRegisters _ =>
      obtain ⟨hk, hnn, rfl⟩ := h
      rw [decode?, hk, hnn]
      rfl

theorem decode?_of_draw (hk : w.kind = 0xD) : decode? w = some (.draw w.x w.y w.n) :=
  decode?_of_spells ⟨hk, rfl, rfl, rfl⟩

theorem spells_of_ofKeyWord? {i : Instruction} (hk : w.kind = 0xE)
    (h : ofKeyWord? w.x w.nn = some i) : w.Spells i := by
  unfold ofKeyWord? at h
  split at h
  case h_3 => cases h
  all_goals
    next hnn => cases h; exact ⟨hk, UInt8.toNat.inj hnn, rfl⟩

theorem spells_of_ofTransferWord? {i : Instruction} (hk : w.kind = 0xF)
    (h : ofTransferWord? w.x w.nn = some i) : w.Spells i := by
  unfold ofTransferWord? at h
  split at h
  case h_10 => cases h
  all_goals
    next hnn => cases h; exact ⟨hk, UInt8.toNat.inj hnn, rfl⟩

/-- The last family is what the other fifteen leave. -/
theorem kind_eq_F (h : ¬w.kind.val < 0xF) : w.kind = 0xF :=
  Fin.ext (Nat.le_antisymm (Nat.le_of_lt_succ w.kind.isLt) (Nat.le_of_not_lt h))

theorem spells_of_decode? {i : Instruction} (h : decode? w = some i) : w.Spells i := by
  unfold decode? at h
  split at h <;> rename_i hk
  case h_1 =>
    split at h
    · next hclear => cases h; exact hclear
    · next hclear =>
        split at h
        · next hret => cases h; exact hret
        · next hret => cases h; exact ⟨Fin.ext hk, hclear, hret, rfl⟩
  case h_6 | h_10 =>
    split at h
    · next hn => cases h; exact ⟨Fin.ext hk, hn, rfl, rfl⟩
    · cases h
  case h_9 =>
    obtain ⟨op, hop, rfl⟩ := Option.map_eq_some_iff.mp h
    exact ⟨Fin.ext hk, eq_digit_of_operation? hop, rfl, rfl⟩
  case h_14 => cases h; exact ⟨Fin.ext hk, rfl, rfl, rfl⟩
  case h_15 => exact spells_of_ofKeyWord? (Fin.ext hk) h
  case h_16 =>
    have hF : ¬w.kind.val < 0xF := by simp only [imp_false] at *; omega
    exact spells_of_ofTransferWord? (kind_eq_F hF) h
  case h_2 | h_3 | h_11 | h_12 => cases h; exact ⟨Fin.ext hk, rfl⟩
  all_goals cases h; exact ⟨Fin.ext hk, rfl, rfl⟩

/-- Decoding answers with the instruction a word spells. -/
theorem decode?_eq_some_iff {i : Instruction} : decode? w = some i ↔ w.Spells i :=
  ⟨spells_of_decode?, decode?_of_spells⟩

theorem ofKeyWord?_eq_none_iff {x : Fin 16} {nn : UInt8} :
    ofKeyWord? x nn = none ↔ nn ≠ 0x9E ∧ nn ≠ 0xA1 := by
  unfold ofKeyWord?
  split
  case h_3 h9E hA1 => simpa [← UInt8.toNat_inj] using And.intro h9E hA1
  all_goals next hnn => simp [← UInt8.toNat_inj, hnn]

theorem ofTransferWord?_eq_none_iff {x : Fin 16} {nn : UInt8} :
    ofTransferWord? x nn = none ↔
      nn ∉ [0x07, 0x0A, 0x15, 0x18, 0x1E, 0x29, 0x33, 0x55, 0x65] := by
  unfold ofTransferWord?
  split
  case h_10 => simp_all [← UInt8.toNat_inj]
  all_goals next hnn => simp [← UInt8.toNat_inj, hnn]

theorem unassigned_of_decode? (h : decode? w = none) : w.Unassigned := by
  unfold decode? at h
  split at h <;> rename_i hk
  case h_1 =>
    split at h
    · cases h
    · split at h <;> cases h
  case h_6 =>
    split at h
    · cases h
    · next hn => exact .inl ⟨.inl (Fin.ext hk), hn⟩
  case h_10 =>
    split at h
    · cases h
    · next hn => exact .inl ⟨.inr (Fin.ext hk), hn⟩
  case h_9 =>
    have hop : operation? w.n = none := Option.map_eq_none_iff.mp h
    exact .inr (.inl ⟨Fin.ext hk, operation?_eq_none_iff.mp hop⟩)
  case h_15 => exact .inr (.inr (.inl ⟨Fin.ext hk, ofKeyWord?_eq_none_iff.mp h⟩))
  case h_16 =>
    have hF : ¬w.kind.val < 0xF := by simp only [imp_false] at *; omega
    exact .inr (.inr (.inr ⟨kind_eq_F hF, ofTransferWord?_eq_none_iff.mp h⟩))
  all_goals cases h

theorem decode?_eq_none_iff : decode? w = none ↔ w.Unassigned := by
  refine ⟨unassigned_of_decode?, ?_⟩
  rintro (⟨hk | hk, hn⟩ | ⟨hk, hn⟩ | ⟨hk, hnn⟩ | ⟨hk, hnn⟩) <;> rw [decode?, hk]
  · exact if_neg hn
  · exact if_neg hn
  · exact Option.map_eq_none_iff.mpr (operation?_eq_none_iff.mpr hn)
  · exact ofKeyWord?_eq_none_iff.mpr hnn
  · exact ofTransferWord?_eq_none_iff.mpr hnn

end Instruction

end Chip8
