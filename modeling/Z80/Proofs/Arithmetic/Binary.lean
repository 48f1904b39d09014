import Mathlib.Data.List.Basic
import Mathlib.Data.Nat.Bitwise
import Z80.Machine.Execute
import Z80.Proofs.Arithmetic.Chain

/-!
# Binary arithmetic

Additions and subtractions with carry, one behind the other, are those of numbers of any length,
without a sign or with one: the last carry says whether the result fits without a sign, and the
last overflow flag whether it fits with one.  The operations on words are such chains of two bytes.

## Main definitions

* `Z80.Digits.binary` — bytes as the digits of a binary number.
* `Z80.signed` — the signed number that bytes denote.
* `Z80.Overflows` — whether a number does not fit into a number of bytes with a sign.
* `Z80.CombinesSigned` — whether the flags behind an operation are those of signed arithmetic.
* `Z80.IsBinaryResult` — whether bytes and flags are what becomes of a result.
* `Z80.wordResult` — the word that two bytes are.

## Main results

* `Z80.combines_adc`, `Z80.combines_sbc` — arithmetic on bytes, without a sign.
* `Z80.combinesSigned_adc`, `Z80.combinesSigned_sbc` — arithmetic on bytes, with a sign.
* `Z80.parity_chain` — overflow of numbers of any length.
* `Z80.adc16_eq`, `Z80.sbc16_eq` — the operations on words, byte by byte.
* `Z80.multibyte_arithmetic` — arithmetic on numbers of any length.
-/

namespace Z80

/-! ### Without a sign -/

/-- Bytes as the digits of a binary number. -/
def Digits.binary : Digits where
  base := 256
  value := UInt8.toNat
  IsDigit _ := True
  one_lt_base := by decide
  value_lt {b} _ := b.toNat_lt

lemma toNat_add8 (x y : UInt8) (carry : Bool) :
    (add8 x y carry).1.toNat = (x.toNat + y.toNat + carry.toNat) % 256 := by
  cases carry <;> simp [add8]

/-- The carry of a sum is what does not fit into a byte. -/
lemma toNat_carry_add8 (x y : UInt8) (carry : Bool) :
    (add8 x y carry).2.carry.toNat = (x.toNat + y.toNat + carry.toNat) / 256 := by
  have hx := x.toNat_lt
  have hy := y.toNat_lt
  have hbit := Bool.toNat_le carry
  change (decide (255 < x.toNat + y.toNat + carry.toNat)).toNat = _
  by_cases h : 255 < x.toNat + y.toNat + carry.toNat <;> simp [h] <;> omega

lemma toNat_sub8 (x y : UInt8) (borrow : Bool) :
    (sub8 x y borrow).1.toNat = (x.toNat + 512 - y.toNat - borrow.toNat) % 256 := by
  have hy := y.toNat_lt
  cases borrow <;> simp [sub8, UInt8.toNat_sub] <;> omega

/-- The carry of a difference is what has to be borrowed. -/
lemma toNat_carry_sub8 (x y : UInt8) (borrow : Bool) :
    (sub8 x y borrow).2.carry.toNat = (y.toNat + borrow.toNat + 255 - x.toNat) / 256 := by
  have hx := x.toNat_lt
  have hy := y.toNat_lt
  have hbit := Bool.toNat_le borrow
  change (decide (x.toNat < y.toNat + borrow.toNat)).toNat = _
  by_cases h : x.toNat < y.toNat + borrow.toNat <;> simp [h] <;> omega

theorem combines_adc : Digits.binary.Combines 1 Arithmetic.adc.apply := by
  intro carry x y _ _
  refine ⟨trivial, ?_⟩
  simp only [Digits.binary, Arithmetic.apply, toNat_add8, toNat_carry_add8]
  omega

theorem combines_sbc : Digits.binary.Combines (-1) Arithmetic.sbc.apply := by
  intro borrow x y _ _
  have hx := x.toNat_lt
  have hy := y.toNat_lt
  have hbit := Bool.toNat_le borrow
  refine ⟨trivial, ?_⟩
  simp only [Digits.binary, Arithmetic.apply, toNat_sub8, toNat_carry_sub8]
  omega

/-! ### The highest bit -/

lemma isNegative_eq (b : UInt8) : isNegative b = b.toNat.testBit 7 := by
  have hand : (b &&& 0x80).toNat = (b.toNat.testBit 7).toNat * 128 := Nat.and_two_pow _ 7
  rw [Bool.eq_iff_iff, isNegative, bne_iff_ne, ne_eq, ← UInt8.toNat_inj, hand]
  cases b.toNat.testBit 7 <;> simp

lemma isNegativeWord_eq (w : UInt16) : isNegativeWord w = w.toNat.testBit 15 := by
  have hand : (w &&& 0x8000).toNat = (w.toNat.testBit 15).toNat * 32768 := Nat.and_two_pow _ 15
  rw [Bool.eq_iff_iff, isNegativeWord, bne_iff_ne, ne_eq, ← UInt16.toNat_inj, hand]
  cases w.toNat.testBit 15 <;> simp

lemma isNegative_iff (b : UInt8) : isNegative b = true ↔ 128 ≤ b.toNat := by
  have := b.toNat_lt
  rw [isNegative_eq, Nat.testBit_eq_decide_div_mod_eq, decide_eq_true_eq]
  omega

lemma isNegative_and (a b : UInt8) : isNegative (a &&& b) = (isNegative a && isNegative b) := by
  simp [isNegative_eq]

lemma isNegative_xor (a b : UInt8) : isNegative (a ^^^ b) = (isNegative a ^^ isNegative b) := by
  simp [isNegative_eq]

lemma isNegativeWord_eq_high (w : UInt16) : isNegativeWord w = isNegative (highByte w) := by
  rw [isNegativeWord_eq, isNegative_eq, toNat_highByte]
  change w.toNat.testBit 15 = (w.toNat / 2 ^ 8).testBit 7
  rw [Nat.testBit_div_two_pow]

/-- The sign of the highest byte is the highest bit of the number. -/
lemma testBit_number_concat (bytes : List UInt8) (b : UInt8) :
    (Digits.binary.number (bytes ++ [b])).testBit (8 * (bytes ++ [b]).length - 1) =
      isNegative b := by
  have hlt : Digits.binary.number bytes < 2 ^ (8 * bytes.length) := by
    rw [pow_mul]
    exact Digits.binary.number_lt fun _ _ => trivial
  have hindex : 8 * (bytes ++ [b]).length - 1 = 8 * bytes.length + 7 := by
    rw [List.length_append, List.length_singleton]
    omega
  have hnumber : Digits.binary.number (bytes ++ [b]) =
      2 ^ (8 * bytes.length) * b.toNat + Digits.binary.number bytes := by
    rw [Digits.number_concat, pow_mul, add_comm]
    rfl
  rw [isNegative_eq, hindex, hnumber, Nat.testBit_two_pow_mul_add _ hlt]
  simp

/-! ### With a sign -/

/-- The signed number that bytes denote, the lowest first. -/
def signed (bytes : List UInt8) : ℤ :=
  (Digits.binary.number bytes : ℤ).bmod (256 ^ bytes.length)

/-- Whether a number does not fit into a number of bytes with a sign. -/
def Overflows (count : Nat) (value : ℤ) : Prop :=
  2 * value < -256 ^ count ∨ 256 ^ count ≤ 2 * value

lemma overflows_one_iff (value : ℤ) : Overflows 1 value ↔ value < -128 ∨ 128 ≤ value := by
  unfold Overflows
  omega

/-- Whether a number fits depends on its highest byte. -/
lemma overflows_concat {count low : Nat} (hlow : low < 256 ^ count) (high : ℤ) :
    Overflows (count + 1) (low + 256 ^ count * high) ↔ Overflows 1 high := by
  zify at hlow
  have hpos : (0 : ℤ) < 256 ^ count := by positivity
  have hbelow : low + 256 ^ count * high < 256 ^ count * -128 ↔ high < -128 := by
    refine ⟨fun h => ?_, fun h => ?_⟩
    · exact lt_of_mul_lt_mul_left (by omega : (256 : ℤ) ^ count * high < _) hpos.le
    · have := mul_le_mul_of_nonneg_left (by omega : high + 1 ≤ -128) hpos.le
      linarith
  have habove : 256 ^ count * 128 ≤ low + 256 ^ count * high ↔ 128 ≤ high := by
    refine ⟨fun h => ?_, fun h => ?_⟩
    · have : (256 : ℤ) ^ count * 128 < 256 ^ count * (high + 1) := by linarith
      have := lt_of_mul_lt_mul_left this hpos.le
      omega
    · have := mul_le_mul_of_nonneg_left h hpos.le
      omega
  rw [overflows_one_iff, ← hbelow, ← habove, Overflows, pow_succ]
  refine or_congr ?_ ?_ <;> constructor <;> intro h <;> linarith

lemma bmod_of_not_overflows {count : Nat} {value : ℤ} (h : ¬ Overflows count value) :
    value.bmod (256 ^ count) = value := by
  rw [Overflows, not_or, not_lt, not_le] at h
  exact Int.bmod_eq_of_le_mul_two (by push_cast; linarith) (by push_cast; linarith)

/-- Only the highest byte has a sign. -/
lemma signed_concat (bytes : List UInt8) (b : UInt8) :
    signed (bytes ++ [b]) =
      Digits.binary.number bytes + 256 ^ bytes.length * (b.toNat - 256 * (isNegative b).toNat) := by
  have hlow := @Digits.number_lt Digits.binary bytes fun _ _ => trivial
  have hhigh : ¬ Overflows 1 (b.toNat - 256 * (isNegative b).toNat) := by
    have hlt := b.toNat_lt
    have hneg := isNegative_iff b
    rw [overflows_one_iff]
    cases h : isNegative b <;> simp [h] at hneg ⊢ <;> omega
  have hfits := mt (overflows_concat hlow (b.toNat - 256 * (isNegative b).toNat)).1 hhigh
  have hnumber : (Digits.binary.number (bytes ++ [b]) : ℤ) =
      Digits.binary.number bytes + 256 ^ bytes.length * (b.toNat - 256 * (isNegative b).toNat) +
        (256 ^ (bytes.length + 1) : Nat) * (isNegative b).toNat := by
    rw [Digits.number_concat]
    push_cast [Digits.binary]
    ring
  rw [signed, List.length_append, List.length_singleton, hnumber, Int.add_mul_bmod_self_left]
  exact bmod_of_not_overflows hfits

lemma signed_singleton (b : UInt8) : signed [b] = b.toNat - 256 * (isNegative b).toNat := by
  simpa using signed_concat [] b

/-- Whether the flags behind an operation on bytes are those of signed arithmetic: the sign of the
result, and whether the exact result overflows. -/
structure CombinesSigned (sign : ℤ) (op : Bool → UInt8 → UInt8 → UInt8 × Flags) : Prop where
  negative : ∀ carry x y, (op carry x y).2.sign = isNegative (op carry x y).1
  overflow : ∀ carry x y, (op carry x y).2.parity = true ↔
    Overflows 1 (signed [x] + sign * (signed [y] + carry.toNat))

/-- A sum overflows if its sign is that of neither operand. -/
theorem combinesSigned_adc : CombinesSigned 1 Arithmetic.adc.apply := by
  refine ⟨fun _ _ _ => rfl, fun carry x y => ?_⟩
  have hx := isNegative_iff x
  have hy := isNegative_iff y
  have hresult := isNegative_iff (add8 x y carry).1
  rw [toNat_add8] at hresult
  have hxlt := x.toNat_lt
  have hylt := y.toNat_lt
  have hbit := Bool.toNat_le carry
  change isNegative ((x ^^^ (add8 x y carry).1) &&& (y ^^^ (add8 x y carry).1)) = true ↔ _
  rw [isNegative_and, isNegative_xor, isNegative_xor, overflows_one_iff, signed_singleton,
    signed_singleton]
  cases h : isNegative x <;> cases h' : isNegative y <;>
    cases h'' : isNegative (add8 x y carry).1 <;> simp [h, h', h''] at hx hy hresult ⊢ <;> omega

/-- A difference overflows if the signs of the operands differ, and the result has that of the
second. -/
theorem combinesSigned_sbc : CombinesSigned (-1) Arithmetic.sbc.apply := by
  refine ⟨fun _ _ _ => rfl, fun borrow x y => ?_⟩
  have hx := isNegative_iff x
  have hy := isNegative_iff y
  have hresult := isNegative_iff (sub8 x y borrow).1
  rw [toNat_sub8] at hresult
  have hxlt := x.toNat_lt
  have hylt := y.toNat_lt
  have hbit := Bool.toNat_le borrow
  change isNegative ((x ^^^ y) &&& (x ^^^ (sub8 x y borrow).1)) = true ↔ _
  rw [isNegative_and, isNegative_xor, isNegative_xor, overflows_one_iff, signed_singleton,
    signed_singleton]
  cases h : isNegative x <;> cases h' : isNegative y <;>
    cases h'' : isNegative (sub8 x y borrow).1 <;> simp [h, h', h''] at hx hy hresult ⊢ <;> omega

/-! ### Numbers of any length -/

variable {sign : ℤ} {op : Bool → UInt8 → UInt8 → UInt8 × Flags} {f : Flags} {xs ys : List UInt8}

/-- Whether bytes and flags are what an exact result becomes, without a sign and with one. -/
structure IsBinaryResult (count : Nat) (exact exactSigned : ℤ) (result : List UInt8 × Flags) :
    Prop where
  represents : Digits.binary.Represents count exact result.1
  /-- The sign flag is the highest bit. -/
  sign : result.2.sign = (Digits.binary.number result.1).testBit (8 * count - 1)
  parity : result.2.parity = true ↔ Overflows count exactSigned

/-- The sign flag behind a chain is the highest bit of the result. -/
lemma sign_chain (hsigned : CombinesSigned sign op) (h : xs.length = ys.length) (x y : UInt8) :
    (chain op f (xs ++ [x]) (ys ++ [y])).2.sign =
      (Digits.binary.number (chain op f (xs ++ [x]) (ys ++ [y])).1).testBit
        (8 * (xs ++ [x]).length - 1) := by
  rw [← @length_chain op f (xs ++ [x]) (ys ++ [y]) (by simp [h]), chain_concat h,
    testBit_number_concat]
  exact hsigned.negative _ x y

/-- **The overflow flag behind a chain is that of signed numbers.**

**Proof sketch.** Without their highest bytes the numbers have no sign, and what they give is the
carry into the highest bytes and a number that cannot make the result overflow. -/
theorem parity_chain (hop : Digits.binary.Combines sign op) (hsigned : CombinesSigned sign op)
    (h : xs.length = ys.length) (x y : UInt8) :
    (chain op f (xs ++ [x]) (ys ++ [y])).2.parity = true ↔
      Overflows (xs ++ [x]).length
        (signed (xs ++ [x]) + sign * (signed (ys ++ [y]) + f.carry.toNat)) := by
  obtain ⟨hdigits, hvalue⟩ :=
    Digits.number_chain (f := f) hop h (fun _ _ => trivial) fun _ _ => trivial
  have hlt := Digits.binary.number_lt hdigits
  rw [length_chain h] at hlt
  have hexact : signed (xs ++ [x]) + sign * (signed (ys ++ [y]) + f.carry.toNat) =
      Digits.binary.number (chain op f xs ys).1 + 256 ^ xs.length *
        (signed [x] + sign * (signed [y] + (chain op f xs ys).2.carry.toNat)) := by
    rw [signed_concat, signed_concat, signed_singleton, signed_singleton, ← h]
    simp only [Digits.binary, Nat.cast_ofNat] at hvalue ⊢
    linear_combination -hvalue
  rw [chain_concat h, List.length_append, List.length_singleton, hexact, overflows_concat hlt]
  exact hsigned.overflow _ x y

/-- A chain gives a binary result if its number is that of the exact result. -/
lemma isBinaryResult_chain (hop : Digits.binary.Combines sign op)
    (hsigned : CombinesSigned sign op) (h : xs.length = ys.length) (hne : xs ≠ []) {exact : ℤ}
    (hexact : Digits.binary.Represents xs.length exact (chain op f xs ys).1) :
    IsBinaryResult xs.length exact (signed xs + sign * (signed ys + f.carry.toNat))
      (chain op f xs ys) := by
  obtain ⟨xs, x, rfl⟩ := xs.eq_nil_or_concat'.resolve_left hne
  obtain ⟨ys, y, rfl⟩ := ys.eq_nil_or_concat'.resolve_left (by rintro rfl; simp at h)
  have hlow : xs.length = ys.length := by simpa using h
  exact ⟨hexact, sign_chain hsigned hlow x y, parity_chain hop hsigned hlow x y⟩

/-! ### Words -/

/-- The bytes of a word, the low one first. -/
def wordBytes (w : UInt16) : List UInt8 :=
  [lowByte w, highByte w]

/-- The word that bytes are the digits of, and the flags with it.  The zero flag is of the whole
word. -/
def wordResult (result : List UInt8 × Flags) : UInt16 × Flags :=
  let w := UInt16.ofNat (Digits.binary.number result.1)
  (w, { result.2 with zero := w = 0 })

lemma number_pair (low high : UInt8) :
    Digits.binary.number [low, high] = (wordOf low high).toNat := by
  rw [toNat_wordOf]
  simp only [Digits.number_cons, Digits.number_nil, Digits.binary]
  omega

/-- The word of a chain of two bytes. -/
lemma wordResult_chain (a v : UInt16) :
    wordResult (chain op f (wordBytes a) (wordBytes v)) =
      let low := op f.carry (lowByte a) (lowByte v)
      let high := op low.2.carry (highByte a) (highByte v)
      (wordOf low.1 high.1, { high.2 with zero := wordOf low.1 high.1 = 0 }) := by
  simp only [wordResult, wordBytes, chain, number_pair, UInt16.ofNat_toNat]

lemma isNegativeWord_and (a b : UInt16) :
    isNegativeWord (a &&& b) = (isNegativeWord a && isNegativeWord b) := by
  simp [isNegativeWord_eq]

lemma isNegativeWord_xor (a b : UInt16) :
    isNegativeWord (a ^^^ b) = (isNegativeWord a ^^ isNegativeWord b) := by
  simp [isNegativeWord_eq]

lemma isNegativeWord_wordOf (low high : UInt8) :
    isNegativeWord (wordOf low high) = isNegative high := by
  rw [isNegativeWord_eq_high, highByte_wordOf]

/-- The carry from the low bytes of a sum to the high ones. -/
lemma toNat_carry_low_add8 (a v : UInt16) (carry : Bool) :
    (add8 (lowByte a) (lowByte v) carry).2.carry.toNat =
      (a.toNat % 256 + v.toNat % 256 + carry.toNat) / 256 := by
  rw [toNat_carry_add8, toNat_lowByte, toNat_lowByte]

/-- The bytes of a sum of words. -/
lemma wordOf_add8 (a v : UInt16) (carry : Bool) :
    let low := add8 (lowByte a) (lowByte v) carry
    wordOf low.1 (add8 (highByte a) (highByte v) low.2.carry).1 =
      a + v + UInt16.ofNat carry.toNat := by
  intro low
  have hsum : (a + v + UInt16.ofNat carry.toNat).toNat =
      (a.toNat + v.toNat + carry.toNat) % 65536 := by
    cases carry <;> simp
  rw [← UInt16.toNat_inj, toNat_wordOf, hsum, toNat_add8, toNat_add8, toNat_carry_low_add8,
    toNat_lowByte, toNat_lowByte, toNat_highByte, toNat_highByte]
  omega

/-- **A sum of words is one of their low bytes and then of their high bytes.** -/
theorem adc16_eq (f : Flags) (a v : UInt16) :
    adc16 a v f.carry = wordResult (chain Arithmetic.adc.apply f (wordBytes a) (wordBytes v)) := by
  set low := add8 (lowByte a) (lowByte v) f.carry
  set high := add8 (highByte a) (highByte v) low.2.carry
  set w := a + v + UInt16.ofNat f.carry.toNat with hw
  have hcarry := toNat_carry_low_add8 a v f.carry
  have hword : wordOf low.1 high.1 = w := wordOf_add8 a v f.carry
  have hsign : isNegativeWord w = high.2.sign := by
    rw [← hword, isNegativeWord_wordOf]
    rfl
  have hhalf : decide (4095 < a.toNat % 4096 + v.toNat % 4096 + f.carry.toNat) = high.2.half := by
    change _ = decide (15 < (highByte a).toNat % 16 + (highByte v).toNat % 16 + low.2.carry.toNat)
    rw [toNat_highByte, toNat_highByte, hcarry, decide_eq_decide]
    omega
  have hparity : isNegativeWord ((a ^^^ w) &&& (v ^^^ w)) = high.2.parity := by
    change _ = isNegative ((highByte a ^^^ high.1) &&& (highByte v ^^^ high.1))
    rw [← hword]
    simp only [isNegativeWord_and, isNegativeWord_xor, isNegative_and, isNegative_xor,
      isNegativeWord_wordOf, isNegativeWord_eq_high a, isNegativeWord_eq_high v]
  have hlarge : decide (65535 < a.toNat + v.toNat + f.carry.toNat) = high.2.carry := by
    change _ = decide (255 < (highByte a).toNat + (highByte v).toNat + low.2.carry.toNat)
    rw [toNat_highByte, toNat_highByte, hcarry, decide_eq_decide]
    omega
  rw [wordResult_chain]
  change _ = (wordOf low.1 high.1, { high.2 with zero := decide (wordOf low.1 high.1 = 0) })
  rw [hword, adc16, ← hw, hsign, hhalf, hparity, hlarge]
  rfl

/-- The borrow by the low bytes of a difference from the high ones. -/
lemma toNat_carry_low_sub8 (a v : UInt16) (borrow : Bool) :
    (sub8 (lowByte a) (lowByte v) borrow).2.carry.toNat =
      (v.toNat % 256 + borrow.toNat + 255 - a.toNat % 256) / 256 := by
  rw [toNat_carry_sub8, toNat_lowByte, toNat_lowByte]

/-- The bytes of a difference of words. -/
lemma wordOf_sub8 (a v : UInt16) (borrow : Bool) :
    let low := sub8 (lowByte a) (lowByte v) borrow
    wordOf low.1 (sub8 (highByte a) (highByte v) low.2.carry).1 =
      a - v - UInt16.ofNat borrow.toNat := by
  intro low
  have ha := a.toNat_lt
  have hv := v.toNat_lt
  have hbit := Bool.toNat_le borrow
  have hdifference : (a - v - UInt16.ofNat borrow.toNat).toNat =
      (a.toNat + 131072 - v.toNat - borrow.toNat) % 65536 := by
    cases borrow <;> simp [UInt16.toNat_sub] <;> omega
  rw [← UInt16.toNat_inj, toNat_wordOf, hdifference, toNat_sub8, toNat_sub8, toNat_carry_low_sub8,
    toNat_lowByte, toNat_lowByte, toNat_highByte, toNat_highByte]
  omega

/-- **A difference of words is one of their low bytes and then of their high bytes.** -/
theorem sbc16_eq (f : Flags) (a v : UInt16) :
    sbc16 a v f.carry = wordResult (chain Arithmetic.sbc.apply f (wordBytes a) (wordBytes v)) := by
  have hbit := Bool.toNat_le f.carry
  set low := sub8 (lowByte a) (lowByte v) f.carry
  set high := sub8 (highByte a) (highByte v) low.2.carry
  set w := a - v - UInt16.ofNat f.carry.toNat with hw
  have hborrow := toNat_carry_low_sub8 a v f.carry
  have hword : wordOf low.1 high.1 = w := wordOf_sub8 a v f.carry
  have hsign : isNegativeWord w = high.2.sign := by
    rw [← hword, isNegativeWord_wordOf]
    rfl
  have hhalf : decide (a.toNat % 4096 < v.toNat % 4096 + f.carry.toNat) = high.2.half := by
    change _ = decide ((highByte a).toNat % 16 < (highByte v).toNat % 16 + low.2.carry.toNat)
    rw [toNat_highByte, toNat_highByte, hborrow, decide_eq_decide]
    omega
  have hparity : isNegativeWord ((a ^^^ v) &&& (a ^^^ w)) = high.2.parity := by
    change _ = isNegative ((highByte a ^^^ highByte v) &&& (highByte a ^^^ high.1))
    rw [← hword]
    simp only [isNegativeWord_and, isNegativeWord_xor, isNegative_and, isNegative_xor,
      isNegativeWord_wordOf, isNegativeWord_eq_high a, isNegativeWord_eq_high v]
  have hsmall : decide (a.toNat < v.toNat + f.carry.toNat) = high.2.carry := by
    change _ = decide ((highByte a).toNat < (highByte v).toNat + low.2.carry.toNat)
    rw [toNat_highByte, toNat_highByte, hborrow, decide_eq_decide]
    omega
  rw [wordResult_chain]
  change _ = (wordOf low.1 high.1, { high.2 with zero := decide (wordOf low.1 high.1 = 0) })
  rw [hword, sbc16, ← hw, hsign, hhalf, hparity, hsmall]
  rfl

/-- A sum without a carry into it is that with a clear carry, but for the flags that it keeps. -/
lemma add16_eq (f : Flags) (a v : UInt16) :
    add16 f a v =
      let (w, g) := adc16 a v false
      (w, { f with half := g.half, subtract := g.subtract, carry := g.carry }) := by
  simp [add16, adc16]

/-- The machine with an operation of the accumulator done on `hl` and a register, byte by byte. -/
def Machine.chained {M : Type} (m : Machine M) (op : Arithmetic) (source : WordReg) : Machine M :=
  m.mapRegisters fun r =>
    setWordResult r .hl
      (wordResult (chain op.apply r.flags (wordBytes (r.word .hl)) (wordBytes (r.word source))))

end Z80
