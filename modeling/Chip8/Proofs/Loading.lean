/-
# `Chip8.Proofs.Loading` — a program starts over

A load puts the program between the digits and the top of memory and zeros
everywhere else (`byteAt_loaded_eq_layout`).  Of what was before it leaves the
keys, the settings and the random source, so machines that agree on these three
are one machine after a load (`loaded_congr`), and a machine with a past is as
good as a fresh one (`load_eq_load_fresh`).  A program that is too long is refused
before anything is touched.
-/
import Chip8.Proofs.FrameLoop

namespace Chip8

/-! ## Memory -/

/-- The bytes of a memory that holds the digits and a program, and is else empty. -/
def Memory.layout (rom : List UInt8) (a : Nat) : UInt8 :=
  if 0x50 ≤ a ∧ a < 0xA0 then Glyph.table.getD (a - 0x50) 0
  else if 0x200 ≤ a ∧ a < 0x200 + rom.length then rom.getD (a - 0x200) 0
  else 0

namespace Memory

theorem byteAt_zeros {a : Nat} (ha : a < size) : byteAt ⟨.replicate 0x1000 0⟩ a = 0 := by
  rw [byteAt_of_lt _ ha]
  exact Vector.getElem_replicate ha

theorem programRoom_eq : programRoom = 3584 := rfl

/-- The digits stand from `0x50` to `0x9F`. -/
theorem byteAt_blank {a : Nat} (ha : a < size) :
    blank.byteAt a = if 0x50 ≤ a ∧ a < 0xA0 then Glyph.table.getD (a - 0x50) 0 else 0 := by
  rw [blank, byteAt_patch_eq_ite _ _ _ ha, byteAt_zeros ha]
  rfl

/-- A program does not reach down to the digits. -/
theorem byteAt_patch_blank (rom : List UInt8) {a : Nat} (ha : a < size) :
    (blank.patch programStart rom).byteAt a = layout rom a := by
  rw [byteAt_patch_eq_ite _ _ _ ha, byteAt_blank ha, layout, programStart]
  by_cases hstart : 0x200 ≤ a
  · have hglyph : ¬(0x50 ≤ a ∧ a < 0xA0) := by omega
    rw [if_neg hglyph, if_neg hglyph]
  · have hprogram : ¬(0x200 ≤ a ∧ a < 0x200 + rom.length) := fun h => hstart h.1
    rw [if_neg hprogram, if_neg hprogram]

end Memory

/-! ## Everything else -/

namespace Machine

variable {R : Type} (m : Machine R) (keys : Keypad) (settings : Settings) (source : R)

@[simp] theorem setKeys_keys : (m.setKeys keys).keys = keys := rfl
@[simp] theorem setKeys_settings : (m.setKeys keys).settings = m.settings := rfl
@[simp] theorem setKeys_source : (m.setKeys keys).source = m.source := rfl

@[simp] theorem idle_settings : (idle settings source).settings = settings := rfl
@[simp] theorem idle_source : (idle settings source).source = source := rfl

end Machine

section Loads
variable {R : Type}

theorem byteAt_loaded_eq_layout (m : Machine R) (rom : List UInt8) {a : Nat}
    (ha : a < Memory.size) : (m.loaded rom).memory.byteAt a = Memory.layout rom a :=
  Memory.byteAt_patch_blank rom ha

/-- Of the machine before, a loaded one has three things. -/
theorem loaded_congr {m m' : Machine R} (hkeys : m.keys = m'.keys)
    (hsettings : m.settings = m'.settings) (hsource : m.source = m'.source) (rom : List UInt8) :
    m.loaded rom = m'.loaded rom := by
  simp only [Machine.loaded, hkeys, hsettings, hsource]

theorem load_congr {m m' : Machine R} (hkeys : m.keys = m'.keys)
    (hsettings : m.settings = m'.settings) (hsource : m.source = m'.source) {rom : List UInt8}
    (hrom : rom.length ≤ Memory.programRoom) : m.load rom = m'.load rom := by
  rw [m.load_of_le hrom, m'.load_of_le hrom, loaded_congr hkeys hsettings hsource rom]

/-- A machine with a past loads like one just made that has been told which keys are
held. -/
theorem load_eq_load_idle (m : Machine R) {rom : List UInt8}
    (hrom : rom.length ≤ Memory.programRoom) :
    m.load rom = ((Machine.idle m.settings m.source).setKeys m.keys).load rom := by
  refine load_congr (Machine.setKeys_keys _ _).symm ?_ ?_ hrom
  · rw [Machine.setKeys_settings, Machine.idle_settings]
  · rw [Machine.setKeys_source, Machine.idle_source]

variable {H : Type} [RandomSource R] [Host H]

/-- A load that is refused leaves the machine as it was.  Any other answers, and
leaves, what it answers and leaves on a machine just made with these settings
and this source that has been told which keys are held; so nothing that follows
can tell the two apart. -/
theorem load_eq_load_fresh (m : Machine R) (rom : List UInt8) :
    let fresh := (Machine.idle m.settings m.source).setKeys m.keys
    if 3584 < rom.length then
      m.load rom = .raise (.romTooLarge rom.length 3584) m
    else
      (m.load rom).result = .ok () ∧
      m.load rom = fresh.load rom ∧
      ∀ requests : List (Request H),
        answers requests (m.load rom).state = answers requests (fresh.load rom).state ∧
        afterRequests requests (m.load rom).state = afterRequests requests (fresh.load rom).state := by
  intro fresh
  rw [← Memory.programRoom_eq]
  split
  · next hlong => exact m.load_of_lt hlong
  · next hfits =>
      have hrom : rom.length ≤ Memory.programRoom := Nat.le_of_not_lt hfits
      have hsame : m.load rom = fresh.load rom := load_eq_load_idle m hrom
      refine ⟨(m.load_result_iff rom).mpr hrom, hsame, ?_⟩
      intro requests
      rw [hsame]
      exact ⟨rfl, rfl⟩

end Loads

end Chip8
