/-!
# Flags

Six bits of the flag register have a meaning: sign, zero, half carry, parity or overflow,
subtraction and carry.  The other two are not kept.

## Main definitions

* `Z80.Flags` — the six flags, with `Z80.Flags.toByte` and `Z80.Flags.ofByte`.
* `Z80.isNegative`, `Z80.hasEvenParity` — what the sign and parity flags say of a byte.
* `Z80.Condition` — the conditions of jumps, calls and returns.

## Main results

* `Z80.Flags.ofByte_toByte` — flags survive being packed into a byte.
-/

namespace Z80

/-- The flags. -/
structure Flags where
  sign : Bool
  zero : Bool
  half : Bool
  parity : Bool
  subtract : Bool
  carry : Bool
  deriving DecidableEq, Repr

namespace Flags

/-- All flags clear. -/
def clear : Flags := ⟨false, false, false, false, false, false⟩

/-- A bit of a byte that is set if a flag is. -/
def bitOf (flag : Bool) (bit : UInt8) : UInt8 :=
  if flag then bit else 0

/-- The flags as the byte of the flag register. -/
def toByte (f : Flags) : UInt8 :=
  bitOf f.sign 0x80 ||| bitOf f.zero 0x40 ||| bitOf f.half 0x10 ||| bitOf f.parity 0x04
    ||| bitOf f.subtract 0x02 ||| bitOf f.carry 0x01

/-- The flags that the byte of the flag register holds. -/
def ofByte (b : UInt8) : Flags where
  sign := b &&& 0x80 != 0
  zero := b &&& 0x40 != 0
  half := b &&& 0x10 != 0
  parity := b &&& 0x04 != 0
  subtract := b &&& 0x02 != 0
  carry := b &&& 0x01 != 0

/-- Flags survive being packed into a byte. -/
theorem ofByte_toByte (f : Flags) : ofByte f.toByte = f := by
  obtain ⟨s, z, h, p, n, c⟩ := f
  revert s z h p n c
  decide

end Flags

/-- Whether a byte is negative as a signed number. -/
def isNegative (b : UInt8) : Bool :=
  b &&& 0x80 != 0

/-- Whether a word is negative as a signed number. -/
def isNegativeWord (w : UInt16) : Bool :=
  w &&& 0x8000 != 0

/-- Whether an even number of the bits of a byte are set. -/
def hasEvenParity (b : UInt8) : Bool :=
  (List.range 8).countP (fun i => b.toNat.testBit i) % 2 = 0

namespace Flags

/-- The flags with sign and zero as a result says. -/
def withResult (f : Flags) (result : UInt8) : Flags :=
  { f with sign := isNegative result, zero := result = 0 }

/-- The flags with sign, zero and parity as a result says. -/
def withParity (f : Flags) (result : UInt8) : Flags :=
  { f.withResult result with parity := hasEvenParity result }

end Flags

/-- The conditions of jumps, calls and returns. -/
inductive Condition where
  | nonzero | zero | noCarry | carry | parityOdd | parityEven | positive | negative
  deriving DecidableEq, Repr

namespace Condition

/-- Whether flags meet a condition. -/
def holds (f : Flags) : Condition → Bool
  | nonzero => !f.zero
  | zero => f.zero
  | noCarry => !f.carry
  | carry => f.carry
  | parityOdd => !f.parity
  | parityEven => f.parity
  | positive => !f.sign
  | negative => f.sign

end Condition

/-- Whether flags meet a condition, if there is one. -/
def conditionHolds (f : Flags) : Option Condition → Bool
  | some condition => condition.holds f
  | none => true

end Z80
