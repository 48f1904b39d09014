import Z80.Flags

/-!
# Arithmetic and logic

The operations of the arithmetic unit, as functions from operands to a result and flags.  Carries
are those of the numbers that the operands denote: out of the upper half or the whole of an
addition, and borrowed by a subtraction.

## Main definitions

* `Z80.add8`, `Z80.sub8` — addition and subtraction of bytes, with every flag.
* `Z80.Arithmetic.apply` — the eight operations of the accumulator with an operand.
* `Z80.add16`, `Z80.adc16`, `Z80.sbc16` — the operations on words.
* `Z80.decimalAdjust` — the correction that makes sums and differences of decimal digits decimal.
* `Z80.Shift.apply` — rotations and shifts.
-/

namespace Z80

/-! ### Bytes -/

/-- The sum of two bytes and a carry. -/
def add8 (a v : UInt8) (carry : Bool) : UInt8 × Flags :=
  let result := a + v + UInt8.ofNat carry.toNat
  (result, {
    sign := isNegative result
    zero := result = 0
    half := 15 < a.toNat % 16 + v.toNat % 16 + carry.toNat
    parity := isNegative ((a ^^^ result) &&& (v ^^^ result))
    subtract := false
    carry := 255 < a.toNat + v.toNat + carry.toNat })

/-- The difference of two bytes and a borrow. -/
def sub8 (a v : UInt8) (borrow : Bool) : UInt8 × Flags :=
  let result := a - v - UInt8.ofNat borrow.toNat
  (result, {
    sign := isNegative result
    zero := result = 0
    half := a.toNat % 16 < v.toNat % 16 + borrow.toNat
    parity := isNegative ((a ^^^ v) &&& (a ^^^ result))
    subtract := true
    carry := a.toNat < v.toNat + borrow.toNat })

/-- The result of a logical operation, with a fixed half carry. -/
def logic8 (result : UInt8) (half : Bool) : UInt8 × Flags :=
  (result, {
    sign := isNegative result
    zero := result = 0
    half := half
    parity := hasEvenParity result
    subtract := false
    carry := false })

/-- The operations of the accumulator with an operand. -/
inductive Arithmetic where
  | add | adc | sub | sbc | and | xor | or | cp
  deriving DecidableEq, Repr

/-- The new accumulator and flags of an operation, given the carry flag before it.  A comparison
keeps the accumulator. -/
def Arithmetic.apply (op : Arithmetic) (carry : Bool) (a v : UInt8) : UInt8 × Flags :=
  match op with
  | add => add8 a v false
  | adc => add8 a v carry
  | sub => sub8 a v false
  | sbc => sub8 a v carry
  | and => logic8 (a &&& v) true
  | xor => logic8 (a ^^^ v) false
  | or => logic8 (a ||| v) false
  | cp => (a, (sub8 a v false).2)

/-- A byte and one, with the carry flag as it was. -/
def increment8 (f : Flags) (v : UInt8) : UInt8 × Flags :=
  let (result, flags) := add8 v 1 false
  (result, { flags with carry := f.carry })

/-- A byte less one, with the carry flag as it was. -/
def decrement8 (f : Flags) (v : UInt8) : UInt8 × Flags :=
  let (result, flags) := sub8 v 1 false
  (result, { flags with carry := f.carry })

/-- The accumulator after decimal correction.  A digit that is too large, or that was carried out
of, is corrected by 6; the correction is added after additions and subtracted after
subtractions. -/
def decimalAdjust (f : Flags) (a : UInt8) : UInt8 × Flags :=
  let low := a.toNat % 16
  let carry := f.carry || 0x99 < a.toNat
  let correction : UInt8 := (if f.half || 9 < low then 0x06 else 0) ||| (if carry then 0x60 else 0)
  let result := if f.subtract then a - correction else a + correction
  (result, {
    sign := isNegative result
    zero := result = 0
    half := if f.subtract then f.half && low < 6 else 9 < low
    parity := hasEvenParity result
    subtract := f.subtract
    carry := carry })

/-! ### Words -/

/-- The sum of two words; sign, zero and parity stay as they were. -/
def add16 (f : Flags) (a v : UInt16) : UInt16 × Flags :=
  (a + v, { f with
    half := 4095 < a.toNat % 4096 + v.toNat % 4096
    subtract := false
    carry := 65535 < a.toNat + v.toNat })

/-- The sum of two words and a carry. -/
def adc16 (a v : UInt16) (carry : Bool) : UInt16 × Flags :=
  let result := a + v + UInt16.ofNat carry.toNat
  (result, {
    sign := isNegativeWord result
    zero := result = 0
    half := 4095 < a.toNat % 4096 + v.toNat % 4096 + carry.toNat
    parity := isNegativeWord ((a ^^^ result) &&& (v ^^^ result))
    subtract := false
    carry := 65535 < a.toNat + v.toNat + carry.toNat })

/-- The difference of two words and a borrow. -/
def sbc16 (a v : UInt16) (borrow : Bool) : UInt16 × Flags :=
  let result := a - v - UInt16.ofNat borrow.toNat
  (result, {
    sign := isNegativeWord result
    zero := result = 0
    half := a.toNat % 4096 < v.toNat % 4096 + borrow.toNat
    parity := isNegativeWord ((a ^^^ v) &&& (a ^^^ result))
    subtract := true
    carry := a.toNat < v.toNat + borrow.toNat })

/-! ### Rotations and shifts -/

/-- The rotations and shifts. -/
inductive Shift where
  | rlc | rrc | rl | rr | sla | sra | sll | srl
  deriving DecidableEq, Repr

/-- The result of a rotation or shift and the bit that leaves the byte.  The undocumented shift
brings in a set bit. -/
def Shift.apply (shift : Shift) (carry : Bool) (v : UInt8) : UInt8 × Bool :=
  let high := v &&& 0x80 != 0
  let low := v &&& 0x01 != 0
  match shift with
  | rlc => ((v <<< 1) ||| (v >>> 7), high)
  | rrc => ((v >>> 1) ||| (v <<< 7), low)
  | rl => ((v <<< 1) ||| (if carry then 0x01 else 0), high)
  | rr => ((v >>> 1) ||| (if carry then 0x80 else 0), low)
  | sla => (v <<< 1, high)
  | sra => ((v >>> 1) ||| (v &&& 0x80), low)
  | sll => ((v <<< 1) ||| 0x01, high)
  | srl => (v >>> 1, low)

/-- A rotation or shift with every flag. -/
def Shift.applyWithFlags (shift : Shift) (carry : Bool) (v : UInt8) : UInt8 × Flags :=
  let (result, out) := shift.apply carry v
  (result, {
    sign := isNegative result
    zero := result = 0
    half := false
    parity := hasEvenParity result
    subtract := false
    carry := out })

/-- The flags of a bit test: sign only if bit 7 is tested and set. -/
def bitTestFlags (f : Flags) (n : Fin 8) (v : UInt8) : Flags :=
  let isSet := v.toNat.testBit n
  { f with
    sign := n.val = 7 && isSet
    zero := !isSet
    half := true
    parity := !isSet
    subtract := false }

/-- The byte with only bit `n` set. -/
def bitMask (n : Fin 8) : UInt8 :=
  1 <<< UInt8.ofNat n.val

end Z80
