/-
# `Chip8.Proofs.ByteAccess` — a range is its bytes, one by one

An access to a range looks once at where the range ends; an access to a byte looks at its
address.  For ranges of at least one byte the two come to the same:

                    all bytes are there     one is not
    one by one      read, or written        fails at the first that is not there
    as a range      read, or written        fails with the address of that byte

Only what a write leaves that failed tells them apart.  One by one, whatever has a place was
written before the first that has none (`writeEach_of_lt`); as a range, nothing was.

A range of no bytes is another matter: there is nothing to read one by one, but a range that
begins past the end of memory fails all the same.

The instructions that write to memory, FX33 and FX55, write ranges (`storeDecimal_eq_overwrite`,
`storeRegisters_eq_overwrite`).
-/
import Chip8.Machine.Execute
import Chip8.Proofs.Memory
import Chip8.Proofs.Outcome

namespace Chip8

theorem Word.toNat_ofBytes (high low : UInt8) :
    (Word.ofBytes high low).toNat = 256 * high.toNat + low.toNat := by
  have hhigh := high.toNat_lt
  have hlow := low.toNat_lt
  rw [Word.ofBytes, UInt16.toNat_ofNat', Nat.mod_eq_of_lt (by omega)]

namespace Memory

variable (m : Memory)

/-! ## Single bytes -/

theorem read_of_lt {a : Nat} (h : a < size) : m.read a = .ok (m.byteAt a) := if_pos h

theorem read_of_le {a : Nat} (h : size ≤ a) : m.read a = .error (.outOfBounds a) :=
  if_neg (Nat.not_lt.mpr h)

theorem write_of_lt {a : Nat} (h : a < size) (b : UInt8) :
    m.write a b = .ok (m.patch a [b]) := by
  have ha : a < 0x1000 := h
  have hset : m.bytes.set a b ha = m.bytes.setIfInBounds a b := by
    refine Vector.ext ?_
    intro k hk
    rw [Vector.getElem_set ha hk, Vector.getElem_setIfInBounds hk]
  rw [write, dif_pos ha, hset]
  rfl

theorem write_of_le {a : Nat} (h : size ≤ a) (b : UInt8) :
    m.write a b = .error (.outOfBounds a) :=
  dif_neg (Nat.not_lt.mpr h)

/-! ## Reading -/

/-- Reads `len` bytes one after the other, up to the first that is not there. -/
def readEach (addr len : Nat) : Except Cause (List UInt8) :=
  (List.range' addr len).mapM m.read

theorem readEach_succ_of_lt {addr : Nat} (h : addr < size) (len : Nat) :
    m.readEach addr (len + 1) = (m.readEach (addr + 1) len).map (m.byteAt addr :: ·) := by
  rw [readEach, List.range'_succ, List.mapM_cons, m.read_of_lt h]
  rfl

theorem readEach_succ_of_le {addr : Nat} (h : size ≤ addr) (len : Nat) :
    m.readEach addr (len + 1) = .error (.outOfBounds addr) := by
  rw [readEach, List.range'_succ, List.mapM_cons, m.read_of_le h]
  rfl

theorem readEach_of_le {addr len : Nat} (h : addr + len ≤ size) :
    m.readEach addr len = .ok ((List.range len).map fun k => m.byteAt (addr + k)) := by
  induction len generalizing addr with
  | zero => rfl
  | succ len ih =>
      have hrest : addr + 1 + len ≤ size := by omega
      rw [m.readEach_succ_of_lt (by omega), ih hrest, List.range_succ_eq_map, List.map_cons,
        List.map_map]
      simp only [Except.map, Nat.add_zero, Function.comp_def, Nat.succ_eq_add_one,
        Nat.add_right_comm, Nat.add_assoc]

/-- The first address that is not there is the end of memory, or the first of all. -/
theorem readEach_of_lt {addr len : Nat} (hlen : 1 ≤ len) (h : size < addr + len) :
    m.readEach addr len = .error (.outOfBounds (max addr size)) := by
  induction len generalizing addr with
  | zero => cases hlen
  | succ len ih =>
      rcases Nat.lt_or_ge addr size with hin | hout
      · have hmax : max (addr + 1) size = max addr size := by omega
        rw [m.readEach_succ_of_lt hin, ih (by omega) (by omega), hmax]
        rfl
      · rw [m.readEach_succ_of_le hout, Nat.max_eq_left hout]

/-! ## Writing -/

/-- Writes bytes one after the other, up to the first that has no place. -/
def writeEach : Nat → List UInt8 → Memory → Outcome Cause Memory Unit
  | _, [], m => .done () m
  | addr, b :: data, m =>
      match m.write addr b with
      | .error cause => .raise cause m
      | .ok m => writeEach (addr + 1) data m

/-- Fills a range of a memory, which stays as it is if that fails. -/
def overwrite (addr : Nat) (data : List UInt8) (m : Memory) : Outcome Cause Memory Unit :=
  match m.fill addr data with
  | .error e => .stop e m
  | .ok m => .done () m

theorem overwrite_of_le {addr : Nat} {data : List UInt8} (h : addr + data.length ≤ size) :
    overwrite addr data m = .done () (m.patch addr data) := by
  rw [overwrite, m.fill_of_le h]

theorem overwrite_of_lt {addr : Nat} {data : List UInt8} (h : size < addr + data.length)
    (hw : addr + data.length < UInt64.size) :
    overwrite addr data m = .raise (.outOfBounds (max addr size)) m := by
  rw [overwrite, m.fill_of_lt h hw]
  rfl

theorem writeEach_cons_of_lt {addr : Nat} (h : addr < size) (b : UInt8) (data : List UInt8) :
    writeEach addr (b :: data) m = writeEach (addr + 1) data (m.patch addr [b]) := by
  rw [writeEach, m.write_of_lt h]

theorem writeEach_cons_of_le {addr : Nat} (h : size ≤ addr) (b : UInt8) (data : List UInt8) :
    writeEach addr (b :: data) m = .raise (.outOfBounds addr) m := by
  rw [writeEach, m.write_of_le h]

theorem patch_of_le {addr : Nat} (h : size ≤ addr) (data : List UInt8) :
    m.patch addr data = m := by
  apply ext_byteAt
  intro a ha
  rw [byteAt_patch data m addr ha, if_neg (by omega)]

theorem writeEach_of_le {addr : Nat} {data : List UInt8} (h : addr + data.length ≤ size) :
    writeEach addr data m = .done () (m.patch addr data) := by
  induction data generalizing addr m with
  | nil => rfl
  | cons b data ih =>
      rw [List.length_cons] at h
      rw [m.writeEach_cons_of_lt (by omega), ih _ (by omega)]
      rfl

/-- What fits has been written when the first byte does not. -/
theorem writeEach_of_lt {addr : Nat} {data : List UInt8} (hlen : 1 ≤ data.length)
    (h : size < addr + data.length) :
    writeEach addr data m = .raise (.outOfBounds (max addr size)) (m.patch addr data) := by
  induction data generalizing addr m with
  | nil => cases hlen
  | cons b data ih =>
      rw [List.length_cons] at h
      rcases Nat.lt_or_ge addr size with hin | hout
      · have hmax : max (addr + 1) size = max addr size := by omega
        rw [m.writeEach_cons_of_lt hin, ih _ (by omega) (by omega), hmax]
        rfl
      · rw [m.writeEach_cons_of_le hout, Nat.max_eq_left hout, m.patch_of_le hout]

/-! ## Ranges and their bytes -/

section Ranges
variable {addr : Nat}

theorem slice_eq_readEach {len : Nat} (hlen : 1 ≤ len) (hw : addr + len < UInt64.size) :
    m.slice addr len = (m.readEach addr len).mapError .raised := by
  rcases Nat.lt_or_ge size (addr + len) with hout | hfits
  · rw [m.slice_of_lt hout hw, m.readEach_of_lt hlen hout]
    rfl
  · rw [m.slice_of_le hfits, m.readEach_of_le hfits]
    rfl

theorem word_eq_read (hw : addr + 2 < UInt64.size) :
    (m.word addr).map UInt16.toNat = Except.mapError .raised (do
      let high ← m.read addr
      let low ← m.read (addr + 1)
      .ok (256 * high.toNat + low.toNat)) := by
  rcases Nat.lt_or_ge size (addr + 2) with hout | hfits
  · rw [m.word_of_lt hout hw]
    rcases Nat.lt_or_ge addr size with hin | hbeyond
    · have hmax : max addr size = addr + 1 := by omega
      rw [m.read_of_lt hin, m.read_of_le (a := addr + 1) (by omega), hmax]
      rfl
    · rw [m.read_of_le hbeyond, Nat.max_eq_left hbeyond]
      rfl
  · have hfirst : addr < size := by omega
    have hsecond : addr + 1 < size := by omega
    rw [m.word_of_le hfits, m.read_of_lt hfirst, m.read_of_lt hsecond]
    exact congrArg Except.ok (Word.toNat_ofBytes _ _)

theorem read_patch {data : List UInt8} {k : Nat} (hk : k < data.length)
    (h : addr + data.length ≤ size) : (m.patch addr data).read (addr + k) = .ok data[k] := by
  have hin : addr + k < size := by omega
  rw [read_of_lt _ hin, byteAt_patch data m addr hin, if_pos (Nat.le_add_right addr k),
    Nat.add_sub_cancel_left, List.getElem?_eq_getElem hk]
  rfl

theorem read_patch_of_outside {data : List UInt8} {a : Nat}
    (h : a < addr ∨ addr + data.length ≤ a) : (m.patch addr data).read a = m.read a := by
  rcases Nat.lt_or_ge a size with hin | hout
  · rw [read_of_lt _ hin, read_of_lt _ hin, byteAt_patch_eq_ite data m addr hin, if_neg (by omega)]
  · rw [read_of_le _ hout, read_of_le _ hout]

end Ranges

/-- Reading a range, or the word in it, comes to the same as reading its bytes one after the
other, in what is read and in the address that is not there.  Filling it fails with that
address and changes nothing, or it does what writing the bytes one after the other does. -/
theorem range_agrees_with_bytes (m : Memory) (addr : Nat) :
    (∀ len, 1 ≤ len → addr + len < UInt64.size →
      m.slice addr len = (m.readEach addr len).mapError .raised) ∧
    (addr + 2 < UInt64.size →
      (m.word addr).map UInt16.toNat = Except.mapError .raised (do
        let high ← m.read addr
        let low ← m.read (addr + 1)
        .ok (256 * high.toNat + low.toNat))) ∧
    ∀ data : List UInt8, 1 ≤ data.length → addr + data.length < UInt64.size →
      let bytes := m.readEach addr data.length
      let filled := overwrite addr data m
      let written := writeEach addr data m
      (∀ cause, bytes = .error cause → filled.result = .error (.raised cause) ∧
        written.result = .error (.raised cause) ∧ filled.state = m) ∧
      ((∃ read, bytes = .ok read) → filled.result = .ok () ∧ written.result = .ok () ∧
        filled.state = written.state ∧
        (∀ k (hk : k < data.length), filled.state.read (addr + k) = .ok data[k]) ∧
        ∀ a, a < addr ∨ addr + data.length ≤ a → filled.state.read a = m.read a) := by
  refine ⟨fun len => m.slice_eq_readEach, m.word_eq_read, ?_⟩
  intro data hlen hw bytes filled written
  rcases Nat.lt_or_ge size (addr + data.length) with hout | hfits
  · have hbytes : bytes = .error (.outOfBounds (max addr size)) := m.readEach_of_lt hlen hout
    have hfilled : filled = .raise _ m := m.overwrite_of_lt hout hw
    have hwritten : written = .raise _ _ := m.writeEach_of_lt hlen hout
    constructor
    · intro cause hcause
      obtain rfl : _ = cause := Except.error.inj (hbytes.symm.trans hcause)
      rw [hfilled, hwritten]
      exact ⟨rfl, rfl, rfl⟩
    · rintro ⟨read, hread⟩
      cases hbytes.symm.trans hread
  · have hbytes : bytes = .ok _ := m.readEach_of_le hfits
    have hfilled : filled = .done () (m.patch addr data) := m.overwrite_of_le hfits
    have hwritten : written = .done () (m.patch addr data) := m.writeEach_of_le hfits
    constructor
    · intro cause hcause
      cases hbytes.symm.trans hcause
    · intro _
      rw [hfilled, hwritten]
      exact ⟨rfl, rfl, rfl, fun k hk => m.read_patch hk hfits, fun a => m.read_patch_of_outside⟩

/-- Three bytes that do not fit at the end of memory by one, the same three where they do, and a
word as far out as addresses go. -/
theorem range_agrees_with_bytes_of_end :
    let filled := overwrite 0xFFE [1, 2, 3] blank
    blank.slice 0xFFE 3 = .error (.raised (.outOfBounds 0x1000)) ∧
    filled.result = .error (.raised (.outOfBounds 0x1000)) ∧ filled.state = blank ∧
    (writeEach 0xFFE [1, 2, 3] blank).result = .error (.raised (.outOfBounds 0x1000)) ∧
    (overwrite 0xFFD [1, 2, 3] blank).state.read 0xFFF = .ok 3 ∧
    blank.word 0xFFFFFFFFFFFFFFFD = .error (.raised (.outOfBounds 0xFFFFFFFFFFFFFFFD)) := by
  intro filled
  have hbytes : blank.readEach 0xFFE 3 = .error (.outOfBounds 0x1000) :=
    blank.readEach_of_lt (by decide) (by decide)
  have hbeyond : blank.read 0xFFFFFFFFFFFFFFFD = .error (.outOfBounds 0xFFFFFFFFFFFFFFFD) :=
    blank.read_of_le (by decide)
  obtain ⟨hslice, -, hfill⟩ := range_agrees_with_bytes blank 0xFFE
  obtain ⟨-, -, hfits⟩ := range_agrees_with_bytes blank 0xFFD
  obtain ⟨-, hword, -⟩ := range_agrees_with_bytes blank 0xFFFFFFFFFFFFFFFD
  obtain ⟨hfails, -⟩ := hfill [1, 2, 3] (by decide) (by decide)
  obtain ⟨hfilled, hwritten, hsame⟩ := hfails _ hbytes
  obtain ⟨-, hsucceeds⟩ := hfits [1, 2, 3] (by decide) (by decide)
  obtain ⟨-, -, -, hread, -⟩ := hsucceeds ⟨_, blank.readEach_of_le (by decide)⟩
  refine ⟨?_, hfilled, hsame, hwritten, hread 2 (by decide), ?_⟩
  · rw [hslice 3 (by decide) (by decide), hbytes]
    rfl
  · have herror := hword (by decide)
    rw [hbeyond] at herror
    cases hw : blank.word 0xFFFFFFFFFFFFFFFD with
    | ok w => rw [hw] at herror; cases herror
    | error e => rw [hw] at herror; exact congrArg Except.error (Except.error.inj herror)

end Memory

/-! ## The instructions that write -/

namespace Machine

variable {R : Type} (m : Machine R) (x : Fin 16)

/-- FX33 overwrites three bytes, or fails and leaves them. -/
theorem storeDecimal_eq_overwrite :
    let written := Memory.overwrite m.index (decimals (m.v.get x)) m.memory
    m.storeDecimal x = ⟨written.result, { m with memory := written.state }, #[]⟩ := by
  intro written
  simp only [written, storeDecimal, Memory.overwrite]
  cases m.memory.fill m.index (decimals (m.v.get x)) with
  | error e => rfl
  | ok memory => rfl

/-- FX55 overwrites as many bytes as it has registers, and goes on only if it did. -/
theorem storeRegisters_eq_overwrite :
    let written := Memory.overwrite m.index (m.v.toList.take (x + 1)) m.memory
    m.storeRegisters x =
      (⟨written.result, { m with memory := written.state }, #[]⟩ : Effect R).andThen
        fun () m => m.passTransfer x := by
  intro written
  simp only [written, storeRegisters, Memory.overwrite]
  cases m.memory.fill m.index (m.v.toList.take (x + 1)) with
  | error e => rfl
  | ok memory =>
      exact (Outcome.done_andThen () { m with memory := memory } fun () m => m.passTransfer x).symm

end Machine

end Chip8
