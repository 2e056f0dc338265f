/-
# `Chip8.Dialect` — the readings of the ambiguous instructions

Four instructions were read differently by different machines.  A dialect
settles each of them:

    8XY6, 8XYE   shift VX in place          or shift VY into VX
    BNNN         jump to NNN + V0           or to NNN + VX
    FX1E         set VF when I leaves       or leave VF alone
                 the memory
    FX55, FX65   leave I alone              or move I past the transfer
-/

namespace Chip8

/-- One decision for each ambiguity; `true` is the older reading, except for
the flag of FX1E. -/
structure Dialect where
  /-- 8XY6 and 8XYE shift VY. -/
  shiftsY : Bool
  /-- BNNN adds VX. -/
  jumpsFromX : Bool
  /-- FX1E sets VF. -/
  flagsIndexOverflow : Bool
  /-- FX55 and FX65 move I. -/
  advancesIndex : Bool
  deriving DecidableEq, Repr

namespace Dialect

/-- What programs expect today. -/
def modern : Dialect where
  shiftsY := false
  jumpsFromX := false
  flagsIndexOverflow := true
  advancesIndex := false

/-- What the COSMAC VIP did. -/
def cosmacVip : Dialect where
  shiftsY := true
  jumpsFromX := false
  flagsIndexOverflow := false
  advancesIndex := true

end Dialect

end Chip8
