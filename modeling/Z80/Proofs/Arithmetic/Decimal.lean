import Z80.Proofs.Arithmetic.Binary

/-!
# Decimal arithmetic

A byte holds two decimal digits, one in each half.  An addition or subtraction of such bytes
followed by the decimal correction is an addition or subtraction of the numbers up to 99 that they
denote, with a decimal carry; and so numbers of any length are added and subtracted.

## Main definitions

* `Z80.Digits.decimal` — bytes of two decimal digits.
* `Z80.Arithmetic.adjusted` — an operation of the accumulator, followed by the decimal correction.

## Main results

* `Z80.adjusted_adc`, `Z80.adjusted_sbc` — which halves of a result are corrected.
* `Z80.combines_adc_adjusted`, `Z80.combines_sbc_adjusted` — decimal arithmetic on bytes.
* `Z80.decimal_arithmetic` — decimal arithmetic on numbers of any length.
-/

namespace Z80

/-- The number that a byte of two decimal digits denotes. -/
def decimalValue (b : UInt8) : Nat :=
  b.toNat / 16 * 10 + b.toNat % 16

/-- Whether both halves of a byte are decimal digits. -/
def IsDecimal (b : UInt8) : Prop :=
  b.toNat / 16 ≤ 9 ∧ b.toNat % 16 ≤ 9

instance : DecidablePred IsDecimal :=
  fun b => inferInstanceAs (Decidable (b.toNat / 16 ≤ 9 ∧ b.toNat % 16 ≤ 9))

/-- Bytes of two decimal digits. -/
def Digits.decimal : Digits where
  base := 100
  value := decimalValue
  IsDigit := IsDecimal
  one_lt_base := by decide
  value_lt := by
    rintro b ⟨hhigh, hlow⟩
    unfold decimalValue
    omega

/-- An operation of the accumulator, followed by the decimal correction. -/
def Arithmetic.adjusted (op : Arithmetic) (carry : Bool) (x y : UInt8) : UInt8 × Flags :=
  let (result, flags) := op.apply carry x y
  decimalAdjust flags result

/-! ### The decimal correction -/

/-- The number by which a result is corrected: 6 in each half that needs it. -/
def correction (low high : Bool) : Nat :=
  (if low then 6 else 0) + if high then 96 else 0

/-- The accumulator behind the correction of a sum. -/
lemma toNat_decimalAdjust_add {f : Flags} (hf : f.subtract = false) (a : UInt8) :
    (decimalAdjust f a).1.toNat =
      (a.toNat + correction (f.half || 9 < a.toNat % 16) (f.carry || 0x99 < a.toNat)) % 256 := by
  simp only [decimalAdjust, hf, Bool.false_eq_true, ↓reduceIte, correction]
  cases f.half || decide (9 < a.toNat % 16) <;> cases f.carry || decide (0x99 < a.toNat) <;>
    simp

/-- The accumulator behind the correction of a difference. -/
lemma toNat_decimalAdjust_sub {f : Flags} (hf : f.subtract = true) (a : UInt8) :
    (decimalAdjust f a).1.toNat =
      (a.toNat + 256 - correction (f.half || 9 < a.toNat % 16) (f.carry || 0x99 < a.toNat)) %
        256 := by
  simp only [decimalAdjust, hf, ↓reduceIte, correction]
  cases f.half || decide (9 < a.toNat % 16) <;> cases f.carry || decide (0x99 < a.toNat) <;>
    simp [UInt8.toNat_sub] <;> omega

section Adjusted

variable {x y : UInt8} (hx : IsDecimal x) (hy : IsDecimal y)

include hx hy

/-- The lower half of a sum is corrected exactly if the sum of the lower digits is above 9, and the
upper half exactly if that of the numbers is above 99. -/
lemma adjusted_adc (carry : Bool) :
    let low := decide (9 < x.toNat % 16 + y.toNat % 16 + carry.toNat)
    let high := decide (99 < decimalValue x + decimalValue y + carry.toNat)
    (Arithmetic.adc.adjusted carry x y).1.toNat =
        (x.toNat + y.toNat + carry.toNat + correction low high) % 256 ∧
      (Arithmetic.adc.adjusted carry x y).2.carry = high := by
  intro low high
  obtain ⟨hxhigh, hxlow⟩ := hx
  obtain ⟨hyhigh, hylow⟩ := hy
  have hbit := Bool.toNat_le carry
  set sum := add8 x y carry with hsum
  have hadjusted : Arithmetic.adc.adjusted carry x y = decimalAdjust sum.2 sum.1 := rfl
  have hlow : (sum.2.half || decide (9 < sum.1.toNat % 16)) = low := by
    have hhalf : sum.2.half = decide (15 < x.toNat % 16 + y.toNat % 16 + carry.toNat) := rfl
    rw [hhalf, hsum, toNat_add8, ← Bool.decide_or, decide_eq_decide]
    omega
  have hhigh : (sum.2.carry || decide (0x99 < sum.1.toNat)) = high := by
    have hcarry : sum.2.carry = decide (255 < x.toNat + y.toNat + carry.toNat) := rfl
    rw [hcarry, hsum, toNat_add8, ← Bool.decide_or, decide_eq_decide]
    unfold decimalValue
    omega
  rw [hadjusted]
  refine ⟨?_, hhigh⟩
  rw [toNat_decimalAdjust_add rfl, hlow, hhigh, hsum, toNat_add8, Nat.mod_add_mod]

/-- The lower half of a difference is corrected exactly if the lower digit is less than what is
subtracted from it, and the upper half exactly if the number is. -/
lemma adjusted_sbc (borrow : Bool) :
    let low := decide (x.toNat % 16 < y.toNat % 16 + borrow.toNat)
    let high := decide (decimalValue x < decimalValue y + borrow.toNat)
    (Arithmetic.sbc.adjusted borrow x y).1.toNat =
        (x.toNat + 768 - y.toNat - borrow.toNat - correction low high) % 256 ∧
      (Arithmetic.sbc.adjusted borrow x y).2.carry = high := by
  intro low high
  obtain ⟨hxhigh, hxlow⟩ := hx
  obtain ⟨hyhigh, hylow⟩ := hy
  have hbit := Bool.toNat_le borrow
  set difference := sub8 x y borrow with hdifference
  have hadjusted :
      Arithmetic.sbc.adjusted borrow x y = decimalAdjust difference.2 difference.1 := rfl
  have hlow : (difference.2.half || decide (9 < difference.1.toNat % 16)) = low := by
    have hhalf : difference.2.half = decide (x.toNat % 16 < y.toNat % 16 + borrow.toNat) := rfl
    rw [hhalf, hdifference, toNat_sub8, ← Bool.decide_or, decide_eq_decide]
    omega
  have hhigh : (difference.2.carry || decide (0x99 < difference.1.toNat)) = high := by
    have hcarry : difference.2.carry = decide (x.toNat < y.toNat + borrow.toNat) := rfl
    rw [hcarry, hdifference, toNat_sub8, ← Bool.decide_or, decide_eq_decide]
    unfold decimalValue
    omega
  have hle : correction low high ≤ 102 := by
    unfold correction
    split <;> split <;> decide
  rw [hadjusted]
  refine ⟨?_, hhigh⟩
  rw [toNat_decimalAdjust_sub rfl, hlow, hhigh, hdifference, toNat_sub8]
  omega

end Adjusted

/-- **A sum of decimal bytes is decimal behind the correction.** -/
theorem combines_adc_adjusted : Digits.decimal.Combines 1 Arithmetic.adc.adjusted := by
  intro carry x y hx hy
  obtain ⟨hvalue, hcarry⟩ := adjusted_adc hx hy carry
  obtain ⟨hxhigh, hxlow⟩ := hx
  obtain ⟨hyhigh, hylow⟩ := hy
  have hbit := Bool.toNat_le carry
  simp only [Digits.decimal, hcarry, correction, decide_eq_true_eq] at hvalue ⊢
  unfold IsDecimal
  unfold decimalValue at hvalue ⊢
  split at hvalue <;> split at hvalue <;>
    simp only [*, decide_true, decide_false, Bool.toNat_true, Bool.toNat_false] <;> omega

/-- **A difference of decimal bytes is decimal behind the correction.** -/
theorem combines_sbc_adjusted : Digits.decimal.Combines (-1) Arithmetic.sbc.adjusted := by
  intro borrow x y hx hy
  obtain ⟨hvalue, hcarry⟩ := adjusted_sbc hx hy borrow
  obtain ⟨hxhigh, hxlow⟩ := hx
  obtain ⟨hyhigh, hylow⟩ := hy
  have hbit := Bool.toNat_le borrow
  simp only [Digits.decimal, hcarry, correction, decide_eq_true_eq] at hvalue ⊢
  unfold IsDecimal
  unfold decimalValue at hvalue ⊢
  split at hvalue <;> split at hvalue <;>
    simp only [*, decide_true, decide_false, Bool.toNat_true, Bool.toNat_false] <;> omega

/-- **Decimal arithmetic on numbers of any length.**  Additions or subtractions of decimal bytes,
each corrected before the next, give the remainder of the exact result in decimal bytes, and the
last carry says whether that is out of range. -/
theorem decimal_arithmetic (f : Flags) {xs ys : List UInt8} (h : xs.length = ys.length)
    (hxs : ∀ x ∈ xs, IsDecimal x) (hys : ∀ y ∈ ys, IsDecimal y) :
    let X := Digits.decimal.number xs
    let Y := Digits.decimal.number ys
    let c := f.carry.toNat
    let sum := chain Arithmetic.adc.adjusted f xs ys
    let difference := chain Arithmetic.sbc.adjusted f xs ys
    (Digits.decimal.Represents xs.length (X + Y + c) sum.1 ∧
        (sum.2.carry = true ↔ 100 ^ xs.length ≤ X + Y + c)) ∧
      Digits.decimal.Represents xs.length (X - Y - c) difference.1 ∧
        (difference.2.carry = true ↔ X < Y + c) :=
  ⟨Digits.represents_chain_add h hxs hys combines_adc_adjusted,
    Digits.represents_chain_sub h hxs hys combines_sbc_adjusted⟩

/-- 1 taken from 1000 is 999. -/
theorem decimal_arithmetic_borrow :
    let difference := chain Arithmetic.sbc.adjusted .clear [0x00, 0x10] [0x01, 0x00]
    Digits.decimal.Represents 2 999 difference.1 ∧ difference.2.carry = false := by
  intro difference
  obtain ⟨-, hdifference, hborrow⟩ :=
    @decimal_arithmetic .clear [0x00, 0x10] [0x01, 0x00] rfl (by simp [IsDecimal])
      (by simp [IsDecimal])
  have hexact : (Digits.decimal.number [0x00, 0x10] - Digits.decimal.number [0x01, 0x00] -
      Flags.clear.carry.toNat : ℤ) = 999 := by decide
  rw [hexact] at hdifference
  exact ⟨hdifference, Bool.eq_false_iff.2 fun h => absurd (hborrow.1 h) (by decide)⟩

end Z80
