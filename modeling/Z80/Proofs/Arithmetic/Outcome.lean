import Mathlib.Logic.Function.Basic
import Z80.Proofs.Arithmetic.Binary

/-!
# What operations on bytes compute

The operations of the arithmetic unit on bytes, said without it: logic, rotations, shifts and
single bits by what becomes of each bit, sums and differences by integers with and without a sign.

## Main definitions

* `Z80.bitsOf`, `Z80.byteOfBits` — a byte and its bits.
* `Z80.resultOfBits` — the byte and the flags of a result that is given by its bits.
* `Z80.resultOfIntegers` — the byte and the flags of a sum or difference of integers.
* `Z80.Shift.moved`, `Z80.Shift.outgoing` — where a rotation or shift moves bits.
* `Z80.ByteOperation` — the operations on a byte.
* `Z80.ByteOperation.outcome` — what an operation on a byte is to compute.
* `Z80.ByteOperation.apply` — what the arithmetic unit computes for it.

## Main results

* `Z80.ByteOperation.apply_eq_outcome` — the arithmetic unit computes what it is to compute.

## Design

No function of the arithmetic unit stands in `outcome`, so the theorem says something about each of
them.  A sum or difference is one function of integers.  Its value for the numbers that the bytes
denote is the result modulo 256, and whether its values are in range gives three of the flags: the
carry for these numbers, the half carry for their lower digits, the overflow for the signed numbers.
-/

namespace Z80

/-! ### Bits -/

/-- The bits of a byte, the lowest first. -/
def bitsOf (b : UInt8) (i : Fin 8) : Bool :=
  b.toNat.testBit i

/-- The byte with the given bits. -/
def byteOfBits (bits : Fin 8 → Bool) : UInt8 :=
  UInt8.ofNat (Nat.ofBits bits)

section Bits

variable (a b : UInt8) (i n : Fin 8)

/-- A byte is put together from its bits. -/
lemma byteOfBits_bitsOf : byteOfBits (bitsOf b) = b := by
  rw [byteOfBits, ← UInt8.toNat_inj, UInt8.toNat_ofNat']
  exact (congrArg (· % 2 ^ 8) (Nat.ofBits_testBit b.toNat 8)).trans
    ((Nat.mod_mod _ _).trans (Nat.mod_eq_of_lt b.toNat_lt))

/-- A byte is known by its bits. -/
lemma eq_byteOfBits {b : UInt8} {bits : Fin 8 → Bool} (h : ∀ i, bitsOf b i = bits i) :
    b = byteOfBits bits := by
  rw [← funext h, byteOfBits_bitsOf]

@[simp]
lemma bitsOf_and : bitsOf (a &&& b) i = (bitsOf a i && bitsOf b i) := by
  simp [bitsOf]

@[simp]
lemma bitsOf_or : bitsOf (a ||| b) i = (bitsOf a i || bitsOf b i) := by
  simp [bitsOf]

@[simp]
lemma bitsOf_xor : bitsOf (a ^^^ b) i = (bitsOf a i ^^ bitsOf b i) := by
  simp [bitsOf]

@[simp]
lemma bitsOf_not : bitsOf (~~~a) i = !bitsOf a i := by
  rw [bitsOf, bitsOf, ← UInt8.toNat_toBitVec, ← UInt8.toNat_toBitVec, BitVec.testBit_toNat,
    BitVec.testBit_toNat, UInt8.toBitVec_not, BitVec.getLsbD_not, decide_eq_true i.isLt,
    Bool.true_and]

@[simp]
lemma bitsOf_zero : bitsOf 0 i = false :=
  Nat.zero_testBit i

/-- The number of places that a byte is shifted by. -/
lemma toNat_ofNat_mod_eight : (UInt8.ofNat n.val).toNat % 8 = n.val := by
  have hn := n.isLt
  rw [UInt8.toNat_ofNat', Nat.mod_mod_of_dvd _ (by decide), Nat.mod_eq_of_lt hn]

/-- A shift up moves each bit up and brings in clear ones. -/
lemma bitsOf_shiftLeft :
    bitsOf (b <<< UInt8.ofNat n.val) i = (decide (n ≤ i) && bitsOf b (i - n)) := by
  rw [bitsOf, UInt8.toNat_shiftLeft, toNat_ofNat_mod_eight, Nat.testBit_mod_two_pow,
    Nat.testBit_shiftLeft, decide_eq_true i.isLt, Bool.true_and]
  by_cases h : n ≤ i
  · rw [bitsOf, Fin.sub_val_of_le h]
    rfl
  · have h' : ¬ i.val ≥ n.val := h
    rw [decide_eq_false h, decide_eq_false h', Bool.false_and, Bool.false_and]

/-- A shift down moves each bit down and brings in clear ones. -/
lemma bitsOf_shiftRight :
    bitsOf (b >>> UInt8.ofNat n.val) i = (decide (i.val + n.val < 8) && bitsOf b (i + n)) := by
  rw [bitsOf, UInt8.toNat_shiftRight, toNat_ofNat_mod_eight, Nat.testBit_shiftRight]
  by_cases h : i.val + n.val < 8
  · rw [bitsOf, Fin.val_add, Nat.mod_eq_of_lt h, decide_eq_true h, Bool.true_and, Nat.add_comm]
  · have hle : 2 ^ 8 ≤ 2 ^ (n.val + i.val) := Nat.pow_le_pow_right (by decide) (by omega)
    rw [decide_eq_false h, Bool.false_and]
    exact Nat.testBit_lt_two_pow (lt_of_lt_of_le b.toNat_lt hle)

end Bits

/-! ### Results -/

/-- The byte with the given bits and the flags behind it: sign, zero and parity are those of the
bits. -/
def resultOfBits (bits : Fin 8 → Bool) (half carry : Bool) : UInt8 × Flags :=
  (byteOfBits bits, {
    sign := bits 7
    zero := ∀ i, bits i = false
    half := half
    parity := Even ((List.ofFn bits).count true)
    subtract := false
    carry := carry })

/-- The byte and the flags that a sum or difference of two bytes becomes: its value modulo 256,
whether it leaves the numbers without a sign, the numbers of lower digits, and those with a sign. -/
def resultOfIntegers (value : ℤ → ℤ → ℤ) (subtract : Bool) (x y : UInt8) : UInt8 × Flags :=
  let result := UInt8.ofInt (value x.toNat y.toNat)
  let low := value (x.toNat % 16 : Nat) (y.toNat % 16 : Nat)
  let signedValue := value (signed [x]) (signed [y])
  (result, {
    sign := bitsOf result 7
    zero := result = 0
    half := low < 0 ∨ 16 ≤ low
    parity := signedValue < -128 ∨ 128 ≤ signedValue
    subtract := subtract
    carry := value x.toNat y.toNat < 0 ∨ 256 ≤ value x.toNat y.toNat })

namespace Shift

/-- Whether a rotation or shift moves bits up. -/
def isUp : Shift → Bool
  | rlc | rl | sla | sll => true
  | rrc | rr | sra | srl => false

/-- The bit that comes in at the end that the others move away from. -/
def incoming (shift : Shift) (carry : Bool) (bits : Fin 8 → Bool) : Bool :=
  match shift with
  | rlc | sra => bits 7
  | rrc => bits 0
  | rl | rr => carry
  | sla | srl => false
  | sll => true

/-- The bits behind a rotation or shift, which moves each of them by one place. -/
def moved (shift : Shift) (carry : Bool) (bits : Fin 8 → Bool) (i : Fin 8) : Bool :=
  if shift.isUp then
    if i = 0 then shift.incoming carry bits else bits (i - 1)
  else
    if i = 7 then shift.incoming carry bits else bits (i + 1)

/-- The bit that leaves. -/
def outgoing (shift : Shift) (bits : Fin 8 → Bool) : Bool :=
  if shift.isUp then bits 7 else bits 0

end Shift

/-! ### Operations -/

/-- The operations on a byte. -/
inductive ByteOperation where
  /-- An operation of the accumulator with the byte. -/
  | arithmetic (op : Arithmetic)
  | increment
  | decrement
  | shift (shift : Shift)
  | testBit (n : Fin 8)
  | resetBit (n : Fin 8)
  | setBit (n : Fin 8)
  deriving DecidableEq, Repr

/-- **What an operation of the accumulator with a byte is to compute.**  A comparison keeps the
accumulator. -/
def Arithmetic.outcome (op : Arithmetic) (carry : Bool) (a v : UInt8) : UInt8 × Flags :=
  match op with
  | add => resultOfIntegers (fun x y => x + y) false a v
  | adc => resultOfIntegers (fun x y => x + y + carry.toNat) false a v
  | sub => resultOfIntegers (fun x y => x - y) true a v
  | sbc => resultOfIntegers (fun x y => x - y - carry.toNat) true a v
  | and => resultOfBits (fun i => bitsOf a i && bitsOf v i) true false
  | xor => resultOfBits (fun i => bitsOf a i ^^ bitsOf v i) false false
  | or => resultOfBits (fun i => bitsOf a i || bitsOf v i) false false
  | cp => (a, (resultOfIntegers (fun x y => x - y) true a v).2)

namespace ByteOperation

/-- **What an operation is to compute**, given the flags and the accumulator: a byte and the flags
behind it.  Counting keeps the carry flag; a test gives the byte back and says in the flags whether
the bit is clear; resetting and setting a bit keep all others and the flags. -/
def outcome (op : ByteOperation) (flags : Flags) (a v : UInt8) : UInt8 × Flags :=
  match op with
  | arithmetic op => op.outcome flags.carry a v
  | increment =>
    let (result, new) := resultOfIntegers (fun x y => x + y) false v 1
    (result, { new with carry := flags.carry })
  | decrement =>
    let (result, new) := resultOfIntegers (fun x y => x - y) true v 1
    (result, { new with carry := flags.carry })
  | shift s => resultOfBits (s.moved flags.carry (bitsOf v)) false (s.outgoing (bitsOf v))
  | testBit n => (v, {
      sign := n = 7 ∧ bitsOf v n = true
      zero := bitsOf v n = false
      half := true
      parity := bitsOf v n = false
      subtract := false
      carry := flags.carry })
  | resetBit n => (byteOfBits (Function.update (bitsOf v) n false), flags)
  | setBit n => (byteOfBits (Function.update (bitsOf v) n true), flags)

/-- What the arithmetic unit computes for an operation. -/
def apply (op : ByteOperation) (flags : Flags) (a v : UInt8) : UInt8 × Flags :=
  match op with
  | arithmetic op => op.apply flags.carry a v
  | increment => increment8 flags v
  | decrement => decrement8 flags v
  | shift s => s.applyWithFlags flags.carry v
  | testBit n => (v, bitTestFlags flags n v)
  | resetBit n => (v &&& ~~~ bitMask n, flags)
  | setBit n => (v ||| bitMask n, flags)

end ByteOperation

/-! ### Sums and differences -/

lemma toNat_ofInt (value : ℤ) : ((UInt8.ofInt value).toNat : ℤ) = value % 256 := by
  rw [UInt8.ofInt, UInt8.toNat_ofNat']
  omega

lemma isNegative_eq_bitsOf (b : UInt8) : isNegative b = bitsOf b 7 :=
  isNegative_eq b

/-- A result and its flags are those of integers if each of them is. -/
lemma eq_resultOfIntegers {value : ℤ → ℤ → ℤ} {subtract : Bool} {x y : UInt8}
    {result : UInt8 × Flags} (hresult : (result.1.toNat : ℤ) = value x.toNat y.toNat % 256)
    (hsign : result.2.sign = isNegative result.1) (hzero : result.2.zero = decide (result.1 = 0))
    (hhalf : result.2.half = true ↔ value (x.toNat % 16 : Nat) (y.toNat % 16 : Nat) < 0 ∨
      16 ≤ value (x.toNat % 16 : Nat) (y.toNat % 16 : Nat))
    (hparity : result.2.parity = true ↔ Overflows 1 (value (signed [x]) (signed [y])))
    (hsubtract : result.2.subtract = subtract)
    (hcarry : result.2.carry = true ↔
      value x.toNat y.toNat < 0 ∨ 256 ≤ value x.toNat y.toNat) :
    result = resultOfIntegers value subtract x y := by
  have hbyte : result.1 = UInt8.ofInt (value x.toNat y.toNat) := by
    rw [← UInt8.toNat_inj]
    have hint := toNat_ofInt (value x.toNat y.toNat)
    omega
  obtain ⟨byte, sign, zero, half, parity, subtract, carry⟩ := result
  dsimp only at hbyte hsign hzero hhalf hparity hsubtract hcarry
  rw [overflows_one_iff] at hparity
  simp only [resultOfIntegers, hbyte, hsign, hzero, hsubtract, isNegative_eq_bitsOf, ← hhalf,
    ← hparity, ← hcarry, Bool.decide_eq_true]

/-- **Sums are computed as integers.** -/
theorem add8_eq (x y : UInt8) (carry : Bool) :
    add8 x y carry = resultOfIntegers (fun x y => x + y + carry.toNat) false x y := by
  refine eq_resultOfIntegers ?_ rfl rfl ?_ ?_ rfl ?_
  · rw [toNat_add8]
    omega
  · change decide (_ < _) = true ↔ _
    rw [decide_eq_true_eq]
    omega
  -- the overflow flag is that of signed numbers of one byte
  · rw [(show (add8 x y carry).2.parity = true ↔ _ from combinesSigned_adc.overflow carry x y),
      one_mul, add_assoc]
  · change decide (_ < _) = true ↔ _
    rw [decide_eq_true_eq]
    omega

/-- **Differences are computed as integers.** -/
theorem sub8_eq (x y : UInt8) (borrow : Bool) :
    sub8 x y borrow = resultOfIntegers (fun x y => x - y - borrow.toNat) true x y := by
  have hx := x.toNat_lt
  have hy := y.toNat_lt
  have hbit := Bool.toNat_le borrow
  refine eq_resultOfIntegers ?_ rfl rfl ?_ ?_ rfl ?_
  · rw [toNat_sub8]
    omega
  · change decide (_ < _) = true ↔ _
    rw [decide_eq_true_eq]
    omega
  · rw [(show (sub8 x y borrow).2.parity = true ↔ _ from combinesSigned_sbc.overflow borrow x y),
      neg_one_mul, ← sub_eq_add_neg, sub_add_eq_sub_sub]
  · change decide (_ < _) = true ↔ _
    rw [decide_eq_true_eq]
    omega

/-! ### Logic, rotations and shifts -/

/-- The zero flag says that all bits are clear. -/
lemma eq_zero_iff (b : UInt8) : b = 0 ↔ ∀ i, bitsOf b i = false := by
  refine ⟨fun h i => h ▸ bitsOf_zero i, fun h => ?_⟩
  rw [eq_byteOfBits h, ← eq_byteOfBits bitsOf_zero]

/-- The parity flag says that an even number of bits are set. -/
lemma hasEvenParity_eq (b : UInt8) :
    hasEvenParity b = decide (Even ((List.ofFn (bitsOf b)).count true)) := by
  have hlist : List.ofFn (bitsOf b) = (List.range 8).map b.toNat.testBit := rfl
  have hcount : (List.ofFn (bitsOf b)).count true =
      (List.range 8).countP fun i => b.toNat.testBit i := by
    rw [hlist, List.count, List.countP_map]
    exact List.countP_congr fun i _ => by simp
  rw [hasEvenParity, hcount, decide_eq_decide, Nat.even_iff]

/-- A byte with the flags of its bits is what the bits give. -/
lemma eq_resultOfBits {bits : Fin 8 → Bool} {b : UInt8} (half carry : Bool)
    (h : ∀ i, bitsOf b i = bits i) :
    (b, { sign := isNegative b, zero := b = 0, half, parity := hasEvenParity b,
          subtract := false, carry : Flags }) = resultOfBits bits half carry := by
  rw [resultOfBits, ← eq_byteOfBits h, ← funext h, isNegative_eq_bitsOf, hasEvenParity_eq]
  simp only [eq_zero_iff]

/-- **Logic combines bit by bit.** -/
theorem logic8_eq {bits : Fin 8 → Bool} {b : UInt8} (half : Bool) (h : ∀ i, bitsOf b i = bits i) :
    logic8 b half = resultOfBits bits half false :=
  eq_resultOfBits half false h

section Moves

variable (v : UInt8) (i : Fin 8)

/-- The lowest bit by its mask. -/
lemma and_one_ne_zero : (v &&& 1 != 0) = bitsOf v 0 := by
  have hand : (v &&& 1).toNat = v.toNat % 2 := Nat.and_one_is_mod _
  have hzero : bitsOf v 0 = decide (v.toNat % 2 = 1) := Nat.testBit_zero _
  rw [Bool.eq_iff_iff, bne_iff_ne, ne_eq, ← UInt8.toNat_inj, hand, hzero, decide_eq_true_eq,
    UInt8.toNat_zero]
  omega

lemma bitsOf_shiftLeft_one :
    bitsOf (v <<< 1) i = (decide (i ≠ 0) && bitsOf v (i - 1)) := by
  have hle : 1 ≤ i ↔ i ≠ 0 := by omega
  rw [← decide_eq_decide.2 hle]
  exact bitsOf_shiftLeft v i 1

lemma bitsOf_shiftRight_one :
    bitsOf (v >>> 1) i = (decide (i ≠ 7) && bitsOf v (i + 1)) := by
  have hlt : i.val + (1 : Fin 8).val < 8 ↔ i ≠ 7 := by omega
  rw [← decide_eq_decide.2 hlt]
  exact bitsOf_shiftRight v i 1

lemma bitsOf_shiftLeft_seven :
    bitsOf (v <<< 7) i = (decide (i = 7) && bitsOf v (i - 7)) := by
  have hle : 7 ≤ i ↔ i = 7 := by omega
  rw [← decide_eq_decide.2 hle]
  exact bitsOf_shiftLeft v i 7

lemma bitsOf_shiftRight_seven :
    bitsOf (v >>> 7) i = (decide (i = 0) && bitsOf v (i + 7)) := by
  have hlt : i.val + (7 : Fin 8).val < 8 ↔ i = 0 := by omega
  rw [← decide_eq_decide.2 hlt]
  exact bitsOf_shiftRight v i 7

/-- **Rotations and shifts move bits.** -/
theorem Shift.bitsOf_apply (shift : Shift) (carry : Bool) :
    bitsOf (shift.apply carry v).1 i = shift.moved carry (bitsOf v) i := by
  have hlow : ∀ i, bitsOf 1 i = decide (i = 0) := by decide
  have hhigh : ∀ i, bitsOf 128 i = decide (i = 7) := by decide
  cases shift with
  | rlc | sla | sll =>
    by_cases h : i = 0 <;>
      simp [apply, moved, isUp, incoming, bitsOf_shiftLeft_one, bitsOf_shiftRight_seven, hlow, h]
  | rl =>
    by_cases h : i = 0 <;> cases carry <;>
      simp [apply, moved, isUp, incoming, bitsOf_shiftLeft_one, hlow, h]
  | rrc | sra | srl =>
    by_cases h : i = 7 <;>
      simp [apply, moved, isUp, incoming, bitsOf_shiftRight_one, bitsOf_shiftLeft_seven, hhigh, h]
  | rr =>
    by_cases h : i = 7 <;> cases carry <;>
      simp [apply, moved, isUp, incoming, bitsOf_shiftRight_one, hhigh, h]

/-- **Rotations and shifts give the bit that leaves.** -/
theorem Shift.apply_outgoing (shift : Shift) (carry : Bool) :
    (shift.apply carry v).2 = shift.outgoing (bitsOf v) := by
  cases shift with
  | rlc | rl | sla | sll => exact isNegative_eq_bitsOf v
  | rrc | rr | sra | srl => exact and_one_ne_zero v

/-- **Rotations and shifts set the flags of the bits that they leave.** -/
theorem Shift.applyWithFlags_eq (shift : Shift) (carry : Bool) :
    shift.applyWithFlags carry v =
      resultOfBits (shift.moved carry (bitsOf v)) false (shift.outgoing (bitsOf v)) := by
  rw [← shift.apply_outgoing v carry]
  exact eq_resultOfBits false _ fun i => shift.bitsOf_apply v i carry

end Moves

/-! ### Single bits -/

section SingleBits

variable (v : UInt8) (n : Fin 8)

lemma bitsOf_bitMask (i : Fin 8) : bitsOf (bitMask n) i = decide (i = n) := by
  revert n i
  decide

/-- **Resetting a bit** keeps the others. -/
theorem and_not_bitMask : v &&& ~~~ bitMask n = byteOfBits (Function.update (bitsOf v) n false) :=
  eq_byteOfBits fun i => by
    by_cases h : i = n <;> simp [bitsOf_bitMask, h]

/-- **Setting a bit** keeps the others. -/
theorem or_bitMask : v ||| bitMask n = byteOfBits (Function.update (bitsOf v) n true) :=
  eq_byteOfBits fun i => by
    by_cases h : i = n <;> simp [bitsOf_bitMask, h]

/-- **Testing a bit** says whether it is clear. -/
theorem bitTestFlags_eq (flags : Flags) (a : UInt8) :
    (v, bitTestFlags flags n v) = (ByteOperation.testBit n).outcome flags a v := by
  have hbit : v.toNat.testBit n = bitsOf v n := rfl
  have hseven : n.val = 7 ↔ n = 7 := by omega
  simp only [bitTestFlags, ByteOperation.outcome, hbit, hseven]
  cases bitsOf v n <;> simp

end SingleBits

/-! ### The arithmetic unit -/

/-- The operations of the accumulator compute what they are to compute. -/
theorem Arithmetic.apply_eq_outcome (op : Arithmetic) (carry : Bool) (a v : UInt8) :
    op.apply carry a v = op.outcome carry a v := by
  have hadd : add8 a v false = resultOfIntegers (fun x y => x + y) false a v := by
    simpa only [Bool.toNat_false, Nat.cast_zero, add_zero] using add8_eq a v false
  have hsub : sub8 a v false = resultOfIntegers (fun x y => x - y) true a v := by
    simpa only [Bool.toNat_false, Nat.cast_zero, sub_zero] using sub8_eq a v false
  cases op with
  | add => exact hadd
  | adc => exact add8_eq a v carry
  | sub => exact hsub
  | sbc => exact sub8_eq a v carry
  | and => exact logic8_eq true (bitsOf_and a v)
  | xor => exact logic8_eq false (bitsOf_xor a v)
  | or => exact logic8_eq false (bitsOf_or a v)
  | cp => exact congrArg (fun result => (a, result.2)) hsub

/-- **The arithmetic unit computes what each operation on a byte is to compute**, for all flags and
bytes. -/
theorem ByteOperation.apply_eq_outcome (op : ByteOperation) (flags : Flags) (a v : UInt8) :
    op.apply flags a v = op.outcome flags a v := by
  cases op with
  | arithmetic op => exact op.apply_eq_outcome flags.carry a v
  | increment =>
    exact congrArg (fun result => (result.1, { result.2 with carry := flags.carry }))
      (Arithmetic.add.apply_eq_outcome flags.carry v 1)
  | decrement =>
    exact congrArg (fun result => (result.1, { result.2 with carry := flags.carry }))
      (Arithmetic.sub.apply_eq_outcome flags.carry v 1)
  | shift s => exact s.applyWithFlags_eq v flags.carry
  | testBit n => exact bitTestFlags_eq v n flags a
  | resetBit n => exact congrArg (·, flags) (and_not_bitMask v n)
  | setBit n => exact congrArg (·, flags) (or_bitMask v n)

/-- The largest signed number and one overflow into the sign. -/
example : (ByteOperation.arithmetic .add).outcome .clear 0x7F 0x01 =
    (0x80, ⟨true, false, true, true, false, false⟩) := by
  decide

end Z80
