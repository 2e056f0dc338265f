/-
# `Chip8.Proofs.OpcodeTable` — steps by the table

The table of instructions as a manual prints it: by the four digits of the word,
top to bottom, the first line that fits, numbers instead of bytes, and nothing
changed that a line does not name.  `Machine.row` is that table, for every word
but DXYN.  It knows nothing of how words are decoded and instructions executed.
Where a step comes to its end it does what the table says (`step_eq_row`).
-/
import Chip8.Host.Terminal
import Chip8.Proofs.Calls

namespace Chip8

/-! ## The table -/

/-- The memory with these bytes. -/
def Memory.ofBytes (byte : Nat → UInt8) : Memory := ⟨.ofFn fun a : Fin 0x1000 => byte a⟩

namespace Machine

variable {R : Type}

def putPc (m : Machine R) (addr : Nat) : Machine R := { m with pc := addr }

def putV (m : Machine R) (x : Fin 16) (b : Nat) : Machine R :=
  { m with v := m.v.set x (.ofNat b) (digit_lt x) }

variable [RandomSource R]

/-- What the word `w` at the program counter of `s` makes of `s`. -/
def row (w : Word) (s : Machine R) : Machine R :=
  let x := w.x
  let vx := (s.v.get w.x).toNat
  let vy := (s.v.get w.y).toNat
  let nn := w.nn.toNat
  let nnn := w.nnn.val
  let shifted := if s.settings.dialect.shiftsY then vy else vx
  let offset := if s.settings.dialect.jumpsFromX then vx else (s.v.get 0).toNat
  let passed := if s.settings.dialect.advancesIndex then s.index + x + 1 else s.index
  let next := s.putPc (s.pc + 2)
  let skip := s.putPc (s.pc + 4)
  match w.kind.val, w.y.val, w.n.val with
  | 0x0, _, _ =>
      if w = 0x00E0 then { next with screen := .blank, frameReady := true }
      else if w = 0x00EE then { s with pc := s.stack.headD 0, stack := s.stack.tail }
      else next
  | 0x1, _, _ => s.putPc nnn
  | 0x2, _, _ => { s with stack := (s.pc + 2) :: s.stack, pc := nnn }
  | 0x3, _, _ => if vx = nn then skip else next
  | 0x4, _, _ => if vx ≠ nn then skip else next
  | 0x5, _, 0x0 => if vx = vy then skip else next
  | 0x6, _, _ => next.putV x nn
  | 0x7, _, _ => next.putV x ((vx + nn) % 256)
  | 0x8, _, 0x0 => next.putV x vy
  | 0x8, _, 0x1 => next.putV x (vx ||| vy)
  | 0x8, _, 0x2 => next.putV x (vx &&& vy)
  | 0x8, _, 0x3 => next.putV x (vx ^^^ vy)
  | 0x8, _, 0x4 => (next.putV x ((vx + vy) % 256)).putV 0xF (if vx + vy > 255 then 1 else 0)
  | 0x8, _, 0x5 =>
      (next.putV x (((vx : Int) - vy) % 256).toNat).putV 0xF (if vx ≥ vy then 1 else 0)
  | 0x8, _, 0x6 => (next.putV x (shifted / 2)).putV 0xF (shifted % 2)
  | 0x8, _, 0x7 =>
      (next.putV x (((vy : Int) - vx) % 256).toNat).putV 0xF (if vy ≥ vx then 1 else 0)
  | 0x8, _, 0xE => (next.putV x (2 * shifted % 256)).putV 0xF (shifted / 128)
  | 0x9, _, 0x0 => if vx ≠ vy then skip else next
  | 0xA, _, _ => { next with index := nnn }
  | 0xB, _, _ => s.putPc (nnn + offset)
  | 0xC, _, _ =>
      let (b, source) := RandomSource.next s.source
      { next.putV x (b.toNat &&& nn) with source := source }
  | 0xE, 0x9, 0xE => if vx < 16 ∧ s.keys.mask.getLsbD vx then skip else next
  | 0xE, 0xA, 0x1 => if ¬(vx < 16 ∧ s.keys.mask.getLsbD vx) then skip else next
  | 0xF, 0x0, 0x7 => next.putV x s.delay.toNat
  | 0xF, 0x0, 0xA =>
      match (List.range 16).find? fun key => s.keys.mask.getLsbD key with
      | some key => next.putV x key
      | none => s
  | 0xF, 0x1, 0x5 => { next with delay := .ofNat vx }
  | 0xF, 0x1, 0x8 => { next with sound := .ofNat vx }
  | 0xF, 0x1, 0xE =>
      let grown := { next with index := s.index + vx }
      if s.settings.dialect.flagsIndexOverflow ∧ s.index + vx ≥ 0x1000 then grown.putV 0xF 1
      else grown
  | 0xF, 0x2, 0x9 => { next with index := 0x50 + 5 * (vx % 16) }
  | 0xF, 0x3, 0x3 =>
      { next with
        memory := .ofBytes fun a =>
          if a = s.index then .ofNat (vx / 100)
          else if a = s.index + 1 then .ofNat (vx / 10 % 10)
          else if a = s.index + 2 then .ofNat (vx % 10)
          else s.memory.byteAt a }
  | 0xF, 0x5, 0x5 =>
      { next with
        memory := .ofBytes fun a =>
          if h : s.index ≤ a ∧ a ≤ s.index + x then
            have := x.isLt
            s.v[a - s.index]
          else s.memory.byteAt a
        index := passed }
  | 0xF, 0x6, 0x5 =>
      { next with
        v := .ofFn fun k : Fin 16 => if k ≤ x then s.memory.byteAt (s.index + k) else s.v.get k
        index := passed }
  | _, _, _ => s

end Machine

/-! ## Bytes are numbers -/

section Bytes
variable (b c : UInt8)

theorem toNat_add_byte : (b + c).toNat = (b.toNat + c.toNat) % 256 := UInt8.toNat_add b c

theorem toNat_sub_byte : (b - c).toNat = (((b.toNat : Int) - c.toNat) % 256).toNat := by
  have := b.toNat_lt
  have := c.toNat_lt
  rw [UInt8.toNat_sub]
  omega

theorem toNat_shiftRight_byte : (b >>> 1).toNat = b.toNat / 2 := by
  rw [UInt8.toNat_shiftRight]
  exact Nat.shiftRight_succ _ 0

theorem toNat_shiftLeft_byte : (b <<< 1).toNat = 2 * b.toNat % 256 := by
  rw [UInt8.toNat_shiftLeft]
  exact congrArg (· % 256) (Nat.shiftLeft_succ b.toNat 0)

theorem bit_zero_byte : (if b % 2 = 1 then 1 else 0) = b.toNat % 2 := by
  have hbit : b % 2 = 1 ↔ b.toNat % 2 = 1 := by
    rw [← UInt8.toNat_inj, UInt8.toNat_mod]
    rfl
  by_cases h : b.toNat % 2 = 1
  · rw [if_pos (hbit.mpr h), h]
  · rw [if_neg fun hb => h (hbit.mp hb)]
    omega

theorem bit_seven_byte : (if 128 ≤ b then 1 else 0) = b.toNat / 128 := by
  have hlt := b.toNat_lt
  by_cases h : 128 ≤ b
  · have := UInt8.le_iff_toNat_le.mp h
    rw [if_pos h]
    exact (Nat.div_eq_of_lt_le this (by omega)).symm
  · have := fun hle => h (UInt8.le_iff_toNat_le.mpr hle)
    rw [if_neg h]
    exact (Nat.div_eq_of_lt (Nat.lt_of_not_le this)).symm

theorem flag_le : (if b ≤ c then 1 else 0) = if c.toNat ≥ b.toNat then 1 else 0 := by
  simp only [UInt8.le_iff_toNat_le, ge_iff_le]

theorem eq_ofNat {n : Nat} (h : b.toNat = n) : b = .ofNat n := by
  rw [← h, UInt8.ofNat_toNat]

end Bytes

theorem Word.digits_of_nn {w : Word} {b : UInt8} (h : w.nn = b) :
    w.y.val = b.toNat / 16 ∧ w.n.val = b.toNat % 16 := by
  have hnn := w.toNat_nn
  have hn := w.n.isLt
  rw [h] at hnn
  omega

/-! ## The operations of the library in the words of the table -/

namespace Memory

theorem byteAt_ofBytes (byte : Nat → UInt8) {a : Nat} (ha : a < size) :
    (ofBytes byte).byteAt a = byte a := by
  rw [byteAt_of_lt _ ha, ofBytes]
  exact Vector.getElem_ofFn ha

theorem patch_eq_ofBytes (m : Memory) (addr : Nat) (data : List UInt8) {byte : Nat → UInt8}
    (hdata : ∀ k (hk : k < data.length), byte (addr + k) = data[k])
    (hrest : ∀ a, (a < addr ∨ addr + data.length ≤ a) → byte a = m.byteAt a) :
    m.patch addr data = ofBytes byte := by
  apply ext_byteAt
  intro a ha
  rw [byteAt_patch data m addr ha, byteAt_ofBytes byte ha]
  rcases Nat.lt_or_ge a addr with hbefore | hle
  · rw [if_neg (Nat.not_le.mpr hbefore), hrest a (.inl hbefore)]
  · rw [if_pos hle]
    rcases Nat.lt_or_ge (a - addr) data.length with hin | hout
    · have hbyte := hdata (a - addr) hin
      rw [Nat.add_sub_cancel' hle] at hbyte
      rw [hbyte, List.getElem?_eq_getElem hin, Option.getD_some]
    · rw [hrest a (by omega), List.getElem?_eq_none hout, Option.getD_none]

end Memory

/-- Only the numbers below 16 are keys. -/
theorem Keypad.isHeld_iff (keys : Keypad) (key : Nat) :
    keys.isHeld key = true ↔ key < 16 ∧ keys.mask.getLsbD key = true := by
  constructor
  · intro h
    exact ⟨BitVec.lt_of_getLsbD h, h⟩
  · intro h
    exact h.2

namespace Machine

variable {R : Type} (m : Machine R)

theorem setV_eq_putV {b : UInt8} {n : Nat} (hb : b.toNat = n) (x : Fin 16) :
    m.setV x b = m.putV x n := by
  rw [setV, putV, ← hb, UInt8.ofNat_toNat]

theorem setV_setFlag {b : UInt8} {P : Prop} [Decidable P] {n flag : Nat} (hb : b.toNat = n)
    (hflag : (if P then 1 else 0) = flag) (x : Fin 16) :
    (m.setV x b).setFlag P = (m.putV x n).putV 0xF flag := by
  rw [setV_eq_putV m hb, ← hflag]
  by_cases hP : P <;> simp only [setFlag, hP, if_true, if_false, decide_true, decide_false] <;> rfl

theorem past_skip {b : Bool} {P : Prop} [Decidable P] (hb : b = true ↔ P) :
    m.past.skip b = if P then m.putPc (m.pc + 4) else m.putPc (m.pc + 2) := by
  by_cases hP : P
  · rw [if_pos hP, hb.mpr hP]
    rfl
  · rw [if_neg hP, Bool.eq_false_iff.mpr fun h => hP (hb.mp h)]
    rfl

theorem toNat_shiftOperand (x y : Fin 16) :
    (m.shiftOperand x y).toNat =
      if m.settings.dialect.shiftsY then (m.v.get y).toNat else (m.v.get x).toNat := by
  rw [shiftOperand]
  cases m.settings.dialect.shiftsY <;> rfl

theorem decimals_eq (b : UInt8) :
    decimals b = [.ofNat (b.toNat / 100), .ofNat (b.toNat / 10 % 10), .ofNat (b.toNat % 10)] := by
  have hunits : (b % 10).toNat = b.toNat % 10 := UInt8.toNat_mod b 10
  have htens : (b / 10 % 10).toNat = b.toNat / 10 % 10 := by
    rw [UInt8.toNat_mod, UInt8.toNat_div]
    rfl
  have hhundreds : (b / 100).toNat = b.toNat / 100 := UInt8.toNat_div b 100
  rw [decimals, eq_ofNat _ hunits, eq_ofNat _ htens, eq_ofNat _ hhundreds]

theorem patch_decimals (x : Fin 16) :
    m.memory.patch m.index (decimals (m.v.get x)) = .ofBytes fun a =>
      if a = m.index then .ofNat ((m.v.get x).toNat / 100)
      else if a = m.index + 1 then .ofNat ((m.v.get x).toNat / 10 % 10)
      else if a = m.index + 2 then .ofNat ((m.v.get x).toNat % 10)
      else m.memory.byteAt a := by
  apply Memory.patch_eq_ofBytes
  · intro k hk
    rw [decimals_eq] at hk
    match k, hk with
    | 0, _ | 1, _ | 2, _ => simp [decimals_eq]
  · intro a ha
    have ha : a < m.index ∨ m.index + 3 ≤ a := ha
    rw [if_neg (by omega), if_neg (by omega), if_neg (by omega)]

theorem patch_registers (x : Fin 16) :
    m.memory.patch m.index (m.v.toList.take (x + 1)) = .ofBytes fun a =>
      if h : m.index ≤ a ∧ a ≤ m.index + x then
        have := x.isLt
        m.v[a - m.index]
      else m.memory.byteAt a := by
  have hlen := m.length_registers x
  apply Memory.patch_eq_ofBytes
  · intro k hk
    rw [hlen] at hk
    rw [dif_pos ⟨by omega, by omega⟩]
    simp
  · intro a ha
    rw [hlen] at ha
    exact dif_neg (by omega)

theorem load_registers (x : Fin 16) :
    (Vector.ofFn fun i : Fin 16 =>
        (m.memory.bytesFrom m.index (x + 1))[i.val]?.getD (m.v.get i)) =
      Vector.ofFn fun k : Fin 16 => if k ≤ x then m.memory.byteAt (m.index + k) else m.v.get k := by
  apply congrArg Vector.ofFn
  funext k
  unfold Memory.bytesFrom
  by_cases hk : k ≤ x
  · have hlt : k.val < x + 1 := Nat.lt_succ_of_le hk
    simp [hk, hlt]
  · have hge : ¬k.val < x + 1 := fun h => hk (Nat.le_of_lt_succ h)
    simp [hk, hge]

theorem toNat_offset (w : Word) :
    (m.v.get (m.offsetRegister w.nnn)).toNat =
      if m.settings.dialect.jumpsFromX then (m.v.get w.x).toNat else (m.v.get 0).toNat := by
  have hx : (⟨w.nnn.val / 0x100, by omega⟩ : Fin 16) = w.x := by
    apply Fin.ext
    have hnnn := w.val_nnn
    have hnn := w.nn.toNat_lt
    show w.nnn.val / 0x100 = w.x.val
    omega
  by_cases hdialect : m.settings.dialect.jumpsFromX = true
  · simp only [offsetRegister, if_pos hdialect, hx]
  · simp only [offsetRegister, if_neg hdialect]

variable [RandomSource R]

/-! ## The table's lines -/

theorem combine_eq_row {w : Word} {op : Operation} (hk : w.kind = 0x8) (hn : w.n = op.digit) :
    m.past.combine op w.x w.y = m.row w := by
  have hshifted := m.past.toNat_shiftOperand w.x w.y
  rw [row, hk, hn]
  cases op with
  | copy => exact m.past.setV_eq_putV rfl w.x
  | or => exact m.past.setV_eq_putV (UInt8.toNat_or _ _) w.x
  | and => exact m.past.setV_eq_putV (UInt8.toNat_and _ _) w.x
  | xor => exact m.past.setV_eq_putV (UInt8.toNat_xor _ _) w.x
  | add => exact m.past.setV_setFlag (toNat_add_byte _ _) rfl w.x
  | sub | subFrom => exact m.past.setV_setFlag (toNat_sub_byte _ _) (flag_le _ _) w.x
  | shiftRight =>
      have hbit := (bit_zero_byte _).trans (congrArg (· % 2) hshifted)
      exact m.past.setV_setFlag ((toNat_shiftRight_byte _).trans (congrArg (· / 2) hshifted)) hbit w.x
  | shiftLeft =>
      have hbit := (bit_seven_byte _).trans (congrArg (· / 128) hshifted)
      have hresult := congrArg (fun n => 2 * n % 256) hshifted
      exact m.past.setV_setFlag ((toNat_shiftLeft_byte _).trans hresult) hbit w.x

/-- An instruction does what the line of its word says. -/
theorem effect_eq_row {w : Word} {i : Instruction} (hword : w.Spells i) (hdraw : w.kind ≠ 0xD) :
    i.effect m.past = m.row w := by
  cases i with
  | clear | ret =>
      cases hword
      rfl
  | native _ =>
      obtain ⟨hk, hclear, hret, rfl⟩ := hword
      rw [row, hk, if_neg hclear, if_neg hret]
      rfl
  | jump _ | call _ | setIndex _ =>
      obtain ⟨hk, rfl⟩ := hword
      rw [row, hk]
      rfl
  | jumpOffset _ =>
      obtain ⟨hk, rfl⟩ := hword
      rw [row, hk]
      exact congrArg (fun offset => m.putPc (w.nnn.val + offset)) (m.toNat_offset w)
  | skipIfByte _ _ =>
      obtain ⟨hk, rfl, rfl⟩ := hword
      rw [row, hk]
      exact m.past_skip (decide_eq_true_iff.trans UInt8.toNat_inj.symm)
  | skipUnlessByte _ _ =>
      obtain ⟨hk, rfl, rfl⟩ := hword
      rw [row, hk]
      exact m.past_skip (decide_eq_true_iff.trans (not_congr UInt8.toNat_inj.symm))
  | skipIfEqual _ _ =>
      obtain ⟨hk, hn, rfl, rfl⟩ := hword
      rw [row, hk, hn]
      exact m.past_skip (decide_eq_true_iff.trans UInt8.toNat_inj.symm)
  | skipUnlessEqual _ _ =>
      obtain ⟨hk, hn, rfl, rfl⟩ := hword
      rw [row, hk, hn]
      exact m.past_skip (decide_eq_true_iff.trans (not_congr UInt8.toNat_inj.symm))
  | skipIfHeld _ =>
      obtain ⟨hk, hnn, rfl⟩ := hword
      obtain ⟨hy, hn⟩ := Word.digits_of_nn hnn
      rw [row, hk, hy, hn]
      exact m.past_skip (m.keys.isHeld_iff _)
  | skipUnlessHeld _ =>
      obtain ⟨hk, hnn, rfl⟩ := hword
      obtain ⟨hy, hn⟩ := Word.digits_of_nn hnn
      have hheld := not_congr (m.keys.isHeld_iff (m.v.get w.x).toNat)
      rw [row, hk, hy, hn]
      exact m.past_skip ((Bool.not_eq_true' _ ▸ Bool.eq_false_iff).trans hheld)
  | getDelay _ =>
      obtain ⟨hk, hnn, rfl⟩ := hword
      obtain ⟨hy, hn⟩ := Word.digits_of_nn hnn
      rw [row, hk, hy, hn]
      exact m.past.setV_eq_putV rfl w.x
  | awaitKey _ =>
      obtain ⟨hk, hnn, rfl⟩ := hword
      obtain ⟨hy, hn⟩ := Word.digits_of_nn hnn
      rw [row, hk, hy, hn]
      show (match m.keys.lowest? with | some _ => _ | none => _ : Machine R) =
        match m.keys.lowest? with | some _ => _ | none => _
      cases m.keys.lowest? <;> rfl
  | setDelay _ =>
      obtain ⟨hk, hnn, rfl⟩ := hword
      obtain ⟨hy, hn⟩ := Word.digits_of_nn hnn
      rw [row, hk, hy, hn]
      exact congrArg (fun b => { m.past with delay := b }) (eq_ofNat (m.v.get w.x) rfl)
  | setSound _ =>
      obtain ⟨hk, hnn, rfl⟩ := hword
      obtain ⟨hy, hn⟩ := Word.digits_of_nn hnn
      rw [row, hk, hy, hn]
      exact congrArg (fun b => { m.past with sound := b }) (eq_ofNat (m.v.get w.x) rfl)
  | addIndex _ =>
      obtain ⟨hk, hnn, rfl⟩ := hword
      obtain ⟨hy, hn⟩ := Word.digits_of_nn hnn
      rw [row, hk, hy, hn]
      have hflags : m.past.flagsIndex w.x = true ↔
          m.settings.dialect.flagsIndexOverflow = true ∧ m.index + (m.v.get w.x).toNat ≥ 0x1000 := by
        simp only [flagsIndex, Bool.and_eq_true, decide_eq_true_eq]
        rfl
      by_cases hflag : m.past.flagsIndex w.x = true
      · exact (if_pos hflag).trans (if_pos (hflags.mp hflag)).symm
      · exact (if_neg hflag).trans (if_neg fun h => hflag (hflags.mpr h)).symm
  | pointGlyph _ =>
      obtain ⟨hk, hnn, rfl⟩ := hword
      obtain ⟨hy, hn⟩ := Word.digits_of_nn hnn
      rw [row, hk, hy, hn]
      rfl
  | storeDecimal _ =>
      obtain ⟨hk, hnn, rfl⟩ := hword
      obtain ⟨hy, hn⟩ := Word.digits_of_nn hnn
      rw [row, hk, hy, hn, Instruction.effect, patch_decimals]
      rfl
  | storeRegisters _ =>
      obtain ⟨hk, hnn, rfl⟩ := hword
      obtain ⟨hy, hn⟩ := Word.digits_of_nn hnn
      rw [row, hk, hy, hn, Instruction.effect, patch_registers]
      rfl
  | loadRegisters _ =>
      obtain ⟨hk, hnn, rfl⟩ := hword
      obtain ⟨hy, hn⟩ := Word.digits_of_nn hnn
      rw [row, hk, hy, hn, Instruction.effect, load_registers]
      rfl
  | setByte _ _ =>
      obtain ⟨hk, rfl, rfl⟩ := hword
      rw [row, hk]
      exact m.past.setV_eq_putV rfl w.x
  | addByte _ _ =>
      obtain ⟨hk, rfl, rfl⟩ := hword
      rw [row, hk]
      exact m.past.setV_eq_putV (toNat_add_byte _ _) w.x
  | combine op _ _ =>
      obtain ⟨hk, hn, rfl, rfl⟩ := hword
      exact m.combine_eq_row hk hn
  | random _ _ =>
      obtain ⟨hk, rfl, rfl⟩ := hword
      rw [row, hk]
      have hmask := UInt8.toNat_and (RandomSource.next m.source).1 w.nn
      exact congrArg (fun next => { next with source := (RandomSource.next m.source).2 })
        (m.past.setV_eq_putV hmask w.x)
  | draw _ _ _ => exact absurd hword.1 hdraw

end Machine

/-- A step that comes to its end does what the table says of its word. -/
theorem step_eq_row {R H : Type} [RandomSource R] [Host H] {m : Machine R}
    (hm : Reachable H m) (hrun : m.status = .running) (hdraw : m.nextWord.kind ≠ 0xD)
    (hok : m.step.result = .ok ()) : m.step.state = m.row m.nextWord := by
  cases Machine.step_cases hm.inBounds hrun with
  | unread _ hstep | unknown _ _ hstep | fails _ _ _ _ _ hstep =>
      rw [hstep] at hok
      cases hok
  | runs _ i hword _ hstep =>
      rw [hstep]
      exact m.effect_eq_row hword hdraw

/-- 6A2A at the start of a program puts 2A into VA. -/
theorem step_eq_row_of_set :
    let m := (Machine.idle {} (⟨0, 1⟩ : Counter)).loaded [0x6A, 0x2A]
    m.step.state = m.row 0x6A2A ∧ m.step.state.v.get 0xA = 0x2A := by
  intro m
  have hm : Reachable Terminal m := (Reachable.idle _ _).loaded (by decide)
  have hpc : m.pc + 2 ≤ Memory.size := show 0x200 + 2 ≤ 0x1000 by decide
  have hword : m.nextWord = .ofBytes 0x6A 0x2A := Machine.nextWord_loaded _ rfl rfl
  have hspells : m.nextWord.Spells (.setByte 0xA 0x2A) := by
    rw [hword]
    exact ⟨rfl, rfl, rfl⟩
  have hdraw : m.nextWord.kind ≠ 0xD := by
    rw [hword]
    decide
  have hstep := Machine.step_of_effect hm.inBounds rfl hpc hspells rfl
  have hrow := step_eq_row hm rfl hdraw (by rw [hstep])
  rw [hword] at hrow
  have hset : (m.row 0x6A2A).v.get 0xA = 0x2A := rfl
  exact ⟨hrow, hrow ▸ hset⟩

end Chip8
