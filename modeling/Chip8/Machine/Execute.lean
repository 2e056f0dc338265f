/-
# `Chip8.Machine.Execute` — what each instruction does

The program counter already points past the instruction.  Operands are read
before anything is written; where VX and VF are both written, VF is written
last and wins.

    00E0  screen dark                      8XY6  VX ← V ≫ 1, VF ← bit 0 of V
    00EE  pc ← top of the stack            8XYE  VX ← V ≪ 1, VF ← bit 7 of V
    0NNN  nothing                                (V is VY or VX, by dialect)
    1NNN  pc ← NNN                         ANNN  I ← NNN
    2NNN  push pc; pc ← NNN                BNNN  pc ← NNN + V0 (or VX)
    3XNN  skip if VX = NN                  CXNN  VX ← a random byte and NN
    4XNN  skip if VX ≠ NN                  DXYN  draw
    5XY0  skip if VX = VY                  EX9E  skip if key VX is held
    9XY0  skip if VX ≠ VY                  EXA1  skip if it is not
    6XNN  VX ← NN                          FX07  VX ← delay
    7XNN  VX ← VX + NN                     FX0A  VX ← key, or run again
    8XY0  VX ← VY                          FX15  delay ← VX
    8XY1  VX ← VX or VY                    FX18  sound ← VX
    8XY2  VX ← VX and VY                   FX1E  I ← I + VX (VF by dialect)
    8XY3  VX ← VX xor VY                   FX29  I ← picture of VX
    8XY4  VX ← VX + VY, VF ← carry         FX33  memory at I ← decimals of VX
    8XY5  VX ← VX − VY, VF ← no borrow     FX55  memory at I ← V0 … VX
    8XY7  VX ← VY − VX, VF ← no borrow     FX65  V0 … VX ← memory at I

An instruction that fails leaves everything as it was, but for one: a DXYN
whose rows are not all in memory has already cleared VF.
-/
import Chip8.Machine.Basic

namespace Chip8.Machine

variable {R : Type}

/-- What an instruction leaves behind. -/
abbrev Effect (R : Type) := Outcome Cause (Machine R) Unit

/-! ## Registers -/

def setV (m : Machine R) (x : Fin 16) (b : UInt8) : Machine R :=
  { m with v := m.v.set x b (digit_lt x) }

/-- Sets VF to 1 or 0. -/
def setFlag (m : Machine R) (b : Bool) : Machine R :=
  m.setV 0xF (if b then 1 else 0)

/-- Goes to an address, which has to fit the program counter. -/
def goto (m : Machine R) (addr : Nat) : Effect R :=
  if addr < 0x10000 then .done () { m with pc := addr } else .overflow m

/-- Passes over the next instruction if `b`. -/
def skipIf (m : Machine R) (b : Bool) : Effect R :=
  if b then m.goto (m.pc + 2) else .done () m

/-! ## Arithmetic -/

/-- The byte that a shift works on. -/
def shiftOperand (m : Machine R) (x y : Fin 16) : UInt8 :=
  if m.settings.dialect.shiftsY then m.v.get y else m.v.get x

/-- 8XYN. -/
def combine (m : Machine R) (op : Operation) (x y : Fin 16) : Machine R :=
  let vx := m.v.get x
  let vy := m.v.get y
  match op with
  | .copy => m.setV x vy
  | .or => m.setV x (vx ||| vy)
  | .and => m.setV x (vx &&& vy)
  | .xor => m.setV x (vx ^^^ vy)
  | .add => (m.setV x (vx + vy)).setFlag (255 < vx.toNat + vy.toNat)
  | .sub => (m.setV x (vx - vy)).setFlag (vy ≤ vx)
  | .subFrom => (m.setV x (vy - vx)).setFlag (vx ≤ vy)
  | .shiftRight =>
      let b := m.shiftOperand x y
      (m.setV x (b >>> 1)).setFlag (b % 2 = 1)
  | .shiftLeft =>
      let b := m.shiftOperand x y
      (m.setV x (b <<< 1)).setFlag (128 ≤ b)

/-! ## Drawing -/

/-- DXYN: the rows at I, combined with the screen by exclusive or, the upper
left corner at (VX, VY) counted around the edges.  VF tells whether a lit
pixel went dark. -/
def draw (m : Machine R) (x y n : Fin 16) : Effect R :=
  let left := (m.v.get x).toNat % Screen.width
  let top := (m.v.get y).toNat % Screen.height
  let m := m.setFlag false
  match m.memory.slice m.index n with
  | .error e => .stop e m
  | .ok rows =>
      let sprite := Screen.ofSprite rows left top
      .done () { m.setFlag (m.screen.meets sprite) with
        screen := m.screen.xor sprite
        frameReady := true }

/-! ## The address register -/

/-- FX1E: I grows by VX.  Past 16 bits there is no address to grow to; past
the end of memory VF may be set, and it is never cleared. -/
def addIndex (m : Machine R) (x : Fin 16) : Effect R :=
  let sum := m.index + (m.v.get x).toNat
  if sum < 0x10000 then
    let m := { m with index := sum }
    if m.settings.dialect.flagsIndexOverflow && Memory.size ≤ sum then
      .done () (m.setFlag true)
    else .done () m
  else .raise (.outOfBounds sum) m

/-- After a transfer of V0 to VX, I moves past it if the dialect has it so. -/
def passTransfer (m : Machine R) (x : Fin 16) : Effect R :=
  if m.settings.dialect.advancesIndex then
    let sum := m.index + (x + 1)
    if sum < 0x10000 then .done () { m with index := sum } else .overflow m
  else .done () m

/-- Hundreds, tens and units. -/
def decimals (b : UInt8) : List UInt8 := [b / 100, b / 10 % 10, b % 10]

/-- FX33. -/
def storeDecimal (m : Machine R) (x : Fin 16) : Effect R :=
  match m.memory.fill m.index (decimals (m.v.get x)) with
  | .error e => .stop e m
  | .ok memory => .done () { m with memory := memory }

/-- FX55. -/
def storeRegisters (m : Machine R) (x : Fin 16) : Effect R :=
  match m.memory.fill m.index (m.v.toList.take (x + 1)) with
  | .error e => .stop e m
  | .ok memory => passTransfer { m with memory := memory } x

/-- FX65. -/
def loadRegisters (m : Machine R) (x : Fin 16) : Effect R :=
  match m.memory.slice m.index (x + 1) with
  | .error e => .stop e m
  | .ok bytes =>
      let v := .ofFn fun i : Fin 16 => bytes[i.val]?.getD (m.v.get i)
      passTransfer { m with v := v } x

/-! ## Control -/

/-- 00EE. -/
def ret (m : Machine R) : Effect R :=
  match m.stack with
  | [] => .raise .stackUnderflow m
  | addr :: rest => .done () { m with pc := addr, stack := rest }

/-- 2NNN. -/
def call (m : Machine R) (target : Target) : Effect R :=
  if m.stack.length = stackDepth then .raise .stackOverflow m
  else .done () { m with stack := m.pc :: m.stack, pc := target }

/-- The register that BNNN adds; read as BXNN, the first digit of the address
names it. -/
def offsetRegister (m : Machine R) (target : Target) : Fin 16 :=
  if m.settings.dialect.jumpsFromX then ⟨target.val / 0x100, by omega⟩ else 0

/-- BNNN. -/
def jumpOffset (m : Machine R) (target : Target) : Effect R :=
  m.goto (target.val + (m.v.get (m.offsetRegister target)).toNat)

/-- FX0A: without a key the instruction is run again, for the program
counter goes back to it. -/
def awaitKey (m : Machine R) (x : Fin 16) : Effect R :=
  match m.keys.lowest? with
  | some key => .done () (m.setV x (.ofNat key))
  | none =>
      if 2 ≤ m.pc then .done () { m with pc := m.pc - 2 } else .overflow m

/-! ## All instructions -/

variable [RandomSource R]

/-- CXNN. -/
def random (m : Machine R) (x : Fin 16) (nn : UInt8) : Machine R :=
  let (b, source) := RandomSource.next m.source
  { m.setV x (b &&& nn) with source := source }

/-- Runs one instruction. -/
def execute (i : Instruction) (m : Machine R) : Effect R :=
  match i with
  | .clear => .done () { m with screen := .blank, frameReady := true }
  | .ret => m.ret
  | .native _ => .done () m
  | .jump target => .done () { m with pc := target }
  | .call target => m.call target
  | .skipIfByte x nn => m.skipIf (m.v.get x = nn)
  | .skipUnlessByte x nn => m.skipIf (m.v.get x ≠ nn)
  | .skipIfEqual x y => m.skipIf (m.v.get x = m.v.get y)
  | .skipUnlessEqual x y => m.skipIf (m.v.get x ≠ m.v.get y)
  | .setByte x nn => .done () (m.setV x nn)
  | .addByte x nn => .done () (m.setV x (m.v.get x + nn))
  | .combine op x y => .done () (m.combine op x y)
  | .setIndex target => .done () { m with index := target }
  | .jumpOffset target => m.jumpOffset target
  | .random x nn => .done () (m.random x nn)
  | .draw x y n => m.draw x y n
  | .skipIfHeld x => m.skipIf (m.keys.isHeld (m.v.get x).toNat)
  | .skipUnlessHeld x => m.skipIf (!m.keys.isHeld (m.v.get x).toNat)
  | .getDelay x => .done () (m.setV x m.delay)
  | .awaitKey x => m.awaitKey x
  | .setDelay x => .done () { m with delay := m.v.get x }
  | .setSound x => .done () { m with sound := m.v.get x }
  | .addIndex x => m.addIndex x
  | .pointGlyph x => .done () { m with index := Glyph.address (m.v.get x) }
  | .storeDecimal x => m.storeDecimal x
  | .storeRegisters x => m.storeRegisters x
  | .loadRegisters x => m.loadRegisters x

end Chip8.Machine
