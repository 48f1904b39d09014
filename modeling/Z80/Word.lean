/-!
# Bytes of words

A word in memory is two bytes, the low one first.

## Main definitions

* `Z80.wordOf`, `Z80.lowByte`, `Z80.highByte` — a word from its bytes and the bytes of a word.
* `Z80.signExtend` — a signed byte as a word.

## Main results

* `Z80.wordOf_bytes`, `Z80.lowByte_wordOf`, `Z80.highByte_wordOf` — the three undo each other.
-/

namespace Z80

/-- The word with the given low and high bytes. -/
def wordOf (low high : UInt8) : UInt16 :=
  low.toUInt16 ||| (high.toUInt16 <<< 8)

/-- The low byte of a word. -/
def lowByte (w : UInt16) : UInt8 :=
  w.toUInt8

/-- The high byte of a word. -/
def highByte (w : UInt16) : UInt8 :=
  (w >>> 8).toUInt8

/-- A signed byte as a word, its sign extended. -/
def signExtend (b : UInt8) : UInt16 :=
  b.toInt8.toInt16.toUInt16

theorem toNat_wordOf (low high : UInt8) :
    (wordOf low high).toNat = high.toNat * 256 + low.toNat := by
  have hl := low.toNat_lt
  have hh := high.toNat_lt
  have key : high.toNat * 256 + low.toNat = low.toNat ||| high.toNat * 256 := by
    rw [Nat.or_comm]
    simpa [Nat.shiftLeft_eq] using Nat.shiftLeft_add_eq_or_of_lt (i := 8) hl high.toNat
  have small : high.toNat * 256 % 65536 = high.toNat * 256 := Nat.mod_eq_of_lt (by omega)
  simp [wordOf, Nat.shiftLeft_eq, small, key]

theorem toNat_lowByte (w : UInt16) : (lowByte w).toNat = w.toNat % 256 := by
  simp [lowByte]

theorem toNat_highByte (w : UInt16) : (highByte w).toNat = w.toNat / 256 := by
  have := w.toNat_lt
  simp [highByte, Nat.shiftRight_eq_div_pow]
  omega

/-- A word consists of its bytes. -/
theorem wordOf_bytes (w : UInt16) : wordOf (lowByte w) (highByte w) = w := by
  apply UInt16.toNat_inj.1
  rw [toNat_wordOf, toNat_lowByte, toNat_highByte]
  omega

theorem lowByte_wordOf (low high : UInt8) : lowByte (wordOf low high) = low := by
  apply UInt8.toNat_inj.1
  have := low.toNat_lt
  rw [toNat_lowByte, toNat_wordOf]
  omega

theorem highByte_wordOf (low high : UInt8) : highByte (wordOf low high) = high := by
  apply UInt8.toNat_inj.1
  have := low.toNat_lt
  rw [toNat_highByte, toNat_wordOf]
  omega

end Z80
