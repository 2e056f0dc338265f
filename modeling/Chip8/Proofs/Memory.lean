/-
# `Chip8.Proofs.Memory` — what is read, and what is written

A memory is the function `byteAt` below address `size` (`ext_byteAt`).  Through
this view

    slice     answers with the bytes of the range
    word      answers with `wordAt`, two neighbouring bytes
    fill      changes the bytes of the range and no other (`byteAt_patch`)

whenever the range fits, and all three report the first byte that does not
exist when it does not.
-/
import Chip8.Memory

namespace Chip8.Memory

variable (m : Memory)

theorem size_eq : size = 0x1000 := rfl

/-! ## A memory is its bytes -/

theorem byteAt_of_lt {a : Nat} (h : a < 0x1000) : m.byteAt a = m.bytes[a] := by
  rw [byteAt, dif_pos h]

theorem ext_byteAt {m m' : Memory} (h : ∀ a < size, m.byteAt a = m'.byteAt a) : m = m' := by
  cases m with | mk bytes =>
  cases m' with | mk bytes' =>
  refine congrArg Memory.mk (Vector.ext ?_)
  intro a ha
  have hbyte := h a ha
  rw [byteAt_of_lt _ ha, byteAt_of_lt _ ha] at hbyte
  exact hbyte

/-! ## Ranges -/

/-- An address and a length of the machine add up to much less than 64 bits
can hold. -/
theorem lt_uint64 {n : Nat} (h : n ≤ 0x20000) : n < UInt64.size :=
  Nat.lt_of_le_of_lt h (by decide)

theorem checkRange_of_le {addr len : Nat} (h : addr + len ≤ size) :
    checkRange addr len = .ok () := by
  have hw : ¬ UInt64.size ≤ addr + len :=
    Nat.not_le.mpr (lt_uint64 (Nat.le_trans h (by decide)))
  rw [checkRange, if_neg hw, if_neg (Nat.not_lt.mpr h)]

theorem checkRange_of_lt {addr len : Nat} (h : size < addr + len) (hw : addr + len < UInt64.size) :
    checkRange addr len = .error (.raised (.outOfBounds (max addr size))) := by
  rw [checkRange, if_neg (Nat.not_le.mpr hw), if_pos h]

/-- The range check knows three answers, and one condition for each. -/
theorem checkRange_cases (addr len : Nat) :
    (addr + len ≤ size ∧ checkRange addr len = .ok ()) ∨
    (size < addr + len ∧ addr + len < UInt64.size ∧
      checkRange addr len = .error (.raised (.outOfBounds (max addr size)))) ∨
    (UInt64.size ≤ addr + len ∧ checkRange addr len = .error .overflow) := by
  rcases Nat.lt_or_ge size (addr + len) with hlt | hfit
  · rcases Nat.lt_or_ge (addr + len) UInt64.size with hw | hwide
    · exact .inr (.inl ⟨hlt, hw, checkRange_of_lt hlt hw⟩)
    · exact .inr (.inr ⟨hwide, by rw [checkRange, if_pos hwide]⟩)
  · exact .inl ⟨hfit, checkRange_of_le hfit⟩

theorem slice_of_le {addr len : Nat} (h : addr + len ≤ size) :
    m.slice addr len = .ok ((List.range len).map fun k => m.byteAt (addr + k)) := by
  simp only [slice, checkRange_of_le h]

theorem slice_of_lt {addr len : Nat} (h : size < addr + len) (hw : addr + len < UInt64.size) :
    m.slice addr len = .error (.raised (.outOfBounds (max addr size))) := by
  simp only [slice, checkRange_of_lt h hw]

theorem fill_of_le {addr : Nat} {data : List UInt8} (h : addr + data.length ≤ size) :
    m.fill addr data = .ok (m.patch addr data) := by
  simp only [fill, checkRange_of_le h]

theorem fill_of_lt {addr : Nat} {data : List UInt8} (h : size < addr + data.length)
    (hw : addr + data.length < UInt64.size) :
    m.fill addr data = .error (.raised (.outOfBounds (max addr size))) := by
  simp only [fill, checkRange_of_lt h hw]

/-! ## Words -/

/-- The two bytes from `addr` on, as a word. -/
def wordAt (addr : Nat) : Word := .ofBytes (m.byteAt addr) (m.byteAt (addr + 1))

theorem word_of_le {addr : Nat} (h : addr + 2 ≤ size) : m.word addr = .ok (m.wordAt addr) := by
  simp only [word, checkRange_of_le h, wordAt]

theorem word_of_lt {addr : Nat} (h : size < addr + 2) (hw : addr + 2 < UInt64.size) :
    m.word addr = .error (.raised (.outOfBounds (max addr size))) := by
  simp only [word, checkRange_of_lt h hw]

theorem word_eq_ok_iff {addr : Nat} {w : Word} :
    m.word addr = .ok w ↔ addr + 2 ≤ size ∧ m.wordAt addr = w := by
  rcases checkRange_cases addr 2 with ⟨hfit, hok⟩ | ⟨hlt, -, herror⟩ | ⟨hwide, herror⟩
  · rw [m.word_of_le hfit]
    exact ⟨fun h => ⟨hfit, Except.ok.inj h⟩, fun h => congrArg _ h.2⟩
  · simp [word, herror, Nat.not_le.mpr hlt]
  · have hlt : size < addr + 2 := Nat.lt_of_lt_of_le (lt_uint64 (by decide)) hwide
    simp [word, herror, Nat.not_le.mpr hlt]

/-! ## Writing -/

theorem byteAt_setIfInBounds (addr : Nat) (b : UInt8) {a : Nat} (ha : a < size) :
    Memory.byteAt ⟨m.bytes.setIfInBounds addr b⟩ a = if addr = a then b else m.byteAt a := by
  have ha' : a < 0x1000 := ha
  rw [byteAt_of_lt _ ha', byteAt_of_lt _ ha']
  exact Vector.getElem_setIfInBounds ha'

/-- Writing changes the bytes it is given places for, and no other. -/
theorem byteAt_patch (data : List UInt8) (m : Memory) (addr : Nat) {a : Nat} (ha : a < size) :
    (m.patch addr data).byteAt a =
      if addr ≤ a then data[a - addr]?.getD (m.byteAt a) else m.byteAt a := by
  induction data generalizing m addr with
  | nil => simp [patch]
  | cons b data ih =>
      rw [patch, ih, byteAt_setIfInBounds m addr b ha]
      rcases Nat.lt_trichotomy addr a with hlt | rfl | hgt
      · have hsub : a - addr = a - (addr + 1) + 1 := by omega
        rw [if_pos (Nat.succ_le_of_lt hlt), if_pos (Nat.le_of_lt hlt), if_neg (Nat.ne_of_lt hlt),
          hsub, List.getElem?_cons_succ]
      · rw [if_neg (Nat.not_succ_le_self addr), if_pos rfl, if_pos (Nat.le_refl addr)]
        simp
      · have hle : ¬addr ≤ a := Nat.not_le.mpr hgt
        rw [if_neg fun h => hle (Nat.le_of_succ_le h), if_neg (Nat.ne_of_gt hgt), if_neg hle]

theorem wordAt_patch (m : Memory) {addr : Nat} (h : addr + 1 < size) (high low : UInt8) :
    (m.patch addr [high, low]).wordAt addr = .ofBytes high low := by
  rw [wordAt, byteAt_patch _ _ _ (Nat.lt_of_succ_lt h), byteAt_patch _ _ _ h,
    if_pos (Nat.le_refl addr), if_pos (Nat.le_succ addr), Nat.sub_self, Nat.add_sub_cancel_left]
  rfl

theorem byteAt_patch_eq_ite (data : List UInt8) (m : Memory) (addr : Nat) {a : Nat}
    (ha : a < size) :
    (m.patch addr data).byteAt a =
      if addr ≤ a ∧ a < addr + data.length then data.getD (a - addr) 0 else m.byteAt a := by
  rw [byteAt_patch data m addr ha]
  by_cases hfirst : addr ≤ a
  · rw [if_pos hfirst]
    by_cases hlast : a < addr + data.length
    · have hk : a - addr < data.length := Nat.sub_lt_left_of_lt_add hfirst hlast
      rw [if_pos ⟨hfirst, hlast⟩, List.getD_eq_getElem?_getD, List.getElem?_eq_getElem hk]
      rfl
    · have hk : data.length ≤ a - addr := Nat.le_sub_of_add_le' (Nat.le_of_not_lt hlast)
      rw [if_neg fun h => hlast h.2, List.getElem?_eq_none hk]
      rfl
  · rw [if_neg hfirst, if_neg fun h => hfirst h.1]

theorem patch_comm (m : Memory) {addr addr' : Nat} {data data' : List UInt8}
    (h : addr + data.length ≤ addr' ∨ addr' + data'.length ≤ addr) :
    (m.patch addr data).patch addr' data' = (m.patch addr' data').patch addr data := by
  apply ext_byteAt
  intro a ha
  simp only [byteAt_patch_eq_ite _ _ _ ha]
  by_cases hfirst : addr ≤ a ∧ a < addr + data.length
  · have hother : ¬(addr' ≤ a ∧ a < addr' + data'.length) := by omega
    rw [if_neg hother, if_pos hfirst, if_pos hfirst]
  · rw [if_neg hfirst, if_neg hfirst]

end Chip8.Memory
