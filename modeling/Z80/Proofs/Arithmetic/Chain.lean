import Mathlib.Data.Nat.Digits.Defs
import Mathlib.Tactic.LinearCombination
import Z80.Arithmetic

/-!
# Operations on bytes one behind the other

A number of several bytes is added to another one byte by byte from the lowest on, and each
operation takes the carry from the flags of the one before it.  What one operation says about a
byte, all of them together say about the number.

## Main definitions

* `Z80.chain` — an operation on bytes one behind the other.
* `Z80.Digits` — bytes as the digits of a number, with `Z80.Digits.number`.
* `Z80.Digits.Combines` — whether an operation adds digits, or subtracts them.
* `Z80.Digits.Represents` — whether digits are what becomes of a result.

## Main results

* `Z80.Digits.number_chain` — the numbers in front of a chain and behind it.
* `Z80.Digits.represents_chain_add`, `Z80.Digits.represents_chain_sub` — a chain is an addition or
  subtraction of numbers.
-/

namespace Z80

/-! ### Chains -/

/-- An operation on bytes one behind the other, the lowest first.  Each takes the carry from the
flags of the one before it, and the last leaves its flags. -/
def chain (op : Bool → UInt8 → UInt8 → UInt8 × Flags) (f : Flags) :
    (xs ys : List UInt8) → List UInt8 × Flags
  | x :: xs, y :: ys =>
    let (z, g) := op f.carry x y
    let (zs, last) := chain op g xs ys
    (z :: zs, last)
  | _, _ => ([], f)

variable {op : Bool → UInt8 → UInt8 → UInt8 × Flags}

/-- A chain gives as many bytes as it takes. -/
lemma length_chain {f : Flags} {xs ys : List UInt8} (h : xs.length = ys.length) :
    (chain op f xs ys).1.length = xs.length := by
  induction xs generalizing f ys with
  | nil => rfl
  | cons x xs ih =>
    cases ys with
    | nil => simp at h
    | cons y ys => simp [chain, ih (Nat.succ.inj h)]

/-- The flags of a chain are those of its highest bytes. -/
lemma chain_concat {f : Flags} {xs ys : List UInt8} (h : xs.length = ys.length) (x y : UInt8) :
    chain op f (xs ++ [x]) (ys ++ [y]) =
      let low := chain op f xs ys
      let high := op low.2.carry x y
      (low.1 ++ [high.1], high.2) := by
  induction xs generalizing f ys with
  | nil =>
    obtain rfl := List.length_eq_zero_iff.1 h.symm
    rfl
  | cons x' xs ih =>
    cases ys with
    | nil => simp at h
    | cons y' ys => simp [chain, ih (Nat.succ.inj h)]

/-! ### Digits -/

/-- Bytes as the digits of a number. -/
structure Digits where
  base : Nat
  /-- The value of a byte. -/
  value : UInt8 → Nat
  /-- Whether a byte is a digit. -/
  IsDigit : UInt8 → Prop
  one_lt_base : 1 < base
  value_lt : ∀ {b}, IsDigit b → value b < base

namespace Digits

variable (d : Digits)

/-- The number whose digits are given, the lowest first. -/
def number (bytes : List UInt8) : Nat :=
  Nat.ofDigits d.base (bytes.map d.value)

@[simp]
lemma number_nil : d.number [] = 0 := rfl

@[simp]
lemma number_cons (b : UInt8) (bytes : List UInt8) :
    d.number (b :: bytes) = d.value b + d.base * d.number bytes := rfl

lemma number_concat (bytes : List UInt8) (b : UInt8) :
    d.number (bytes ++ [b]) = d.number bytes + d.base ^ bytes.length * d.value b := by
  simp [number, Nat.ofDigits_append]

lemma number_lt {bytes : List UInt8} (h : ∀ b ∈ bytes, d.IsDigit b) :
    d.number bytes < d.base ^ bytes.length := by
  have hlt : ∀ v ∈ bytes.map d.value, v < d.base := by
    rintro v hv
    obtain ⟨b, hb, rfl⟩ := List.mem_map.1 hv
    exact d.value_lt (h b hb)
  have hnumber := Nat.ofDigits_lt_base_pow_length d.one_lt_base hlt
  rwa [List.length_map] at hnumber

/-- Whether an operation adds a digit and the carry to a digit, or subtracts them if the sign is
negative.  The new carry is what does not fit into a digit. -/
def Combines (sign : ℤ) (op : Bool → UInt8 → UInt8 → UInt8 × Flags) : Prop :=
  ∀ carry x y, d.IsDigit x → d.IsDigit y →
    d.IsDigit (op carry x y).1 ∧
      (d.value (op carry x y).1 : ℤ) + sign * (d.base * (op carry x y).2.carry.toNat) =
        d.value x + sign * (d.value y + carry.toNat)

/-- Whether digits are what an exact result becomes if it has to fit into their number: its
remainder. -/
structure Represents (count : Nat) (exact : ℤ) (digits : List UInt8) : Prop where
  length : digits.length = count
  isDigit : ∀ b ∈ digits, d.IsDigit b
  number : (d.number digits : ℤ) = exact % d.base ^ count

variable {d} {sign : ℤ}

/-- **The numbers in front of a chain and behind it.**

**Proof sketch.** Induction on the bytes: the carry out of the first goes into the others, whose
number counts by the base. -/
theorem number_chain (hop : d.Combines sign op) {f : Flags} {xs ys : List UInt8}
    (h : xs.length = ys.length) (hxs : ∀ x ∈ xs, d.IsDigit x) (hys : ∀ y ∈ ys, d.IsDigit y) :
    (∀ z ∈ (chain op f xs ys).1, d.IsDigit z) ∧
      (d.number (chain op f xs ys).1 : ℤ) +
          sign * (d.base ^ xs.length * (chain op f xs ys).2.carry.toNat) =
        d.number xs + sign * (d.number ys + f.carry.toNat) := by
  induction xs generalizing f ys with
  | nil =>
    obtain rfl := List.length_eq_zero_iff.1 h.symm
    simp [chain]
  | cons x xs ih =>
    cases ys with
    | nil => simp at h
    | cons y ys =>
      rw [List.forall_mem_cons] at hxs hys
      obtain ⟨hz, hstep⟩ := hop f.carry x y hxs.1 hys.1
      obtain ⟨hzs, hmore⟩ := @ih (op f.carry x y).2 ys (Nat.succ.inj h) hxs.2 hys.2
      refine ⟨List.forall_mem_cons.2 ⟨hz, hzs⟩, ?_⟩
      simp only [chain, number_cons, List.length_cons, pow_succ]
      push_cast
      linear_combination hstep + (d.base : ℤ) * hmore

/-- Digits that differ from an exact result by a multiple of what they count by represent it. -/
lemma represents_of_eq {digits : List UInt8} (h : ∀ b ∈ digits, d.IsDigit b) {exact : ℤ} (k : ℤ)
    (hexact : (d.number digits : ℤ) + d.base ^ digits.length * k = exact) :
    d.Represents digits.length exact digits := by
  have hlt : (d.number digits : ℤ) < d.base ^ digits.length := mod_cast d.number_lt h
  refine ⟨rfl, h, ?_⟩
  rw [← hexact, Int.add_mul_emod_self_left, Int.emod_eq_of_lt (Int.natCast_nonneg _) hlt]

section Chain

variable {f : Flags} {xs ys : List UInt8} (h : xs.length = ys.length)
  (hxs : ∀ x ∈ xs, d.IsDigit x) (hys : ∀ y ∈ ys, d.IsDigit y)

include h hxs hys

/-- **A chain of additions is an addition of numbers**, and the carry says whether the sum is too
large. -/
theorem represents_chain_add (hop : d.Combines 1 op) :
    d.Represents xs.length (d.number xs + d.number ys + f.carry.toNat) (chain op f xs ys).1 ∧
      ((chain op f xs ys).2.carry = true ↔
        d.base ^ xs.length ≤ d.number xs + d.number ys + f.carry.toNat) := by
  obtain ⟨hzs, hvalue⟩ := number_chain (f := f) hop h hxs hys
  have hlt := d.number_lt hzs
  rw [← @length_chain op f xs ys h] at hvalue ⊢
  refine ⟨represents_of_eq hzs (chain op f xs ys).2.carry.toNat (by linear_combination hvalue), ?_⟩
  zify at hlt ⊢
  cases hcarry : (chain op f xs ys).2.carry <;> simp [hcarry] at hvalue ⊢ <;> omega

/-- **A chain of subtractions is a subtraction of numbers**, and the carry says whether the
difference is negative. -/
theorem represents_chain_sub (hop : d.Combines (-1) op) :
    d.Represents xs.length (d.number xs - d.number ys - f.carry.toNat) (chain op f xs ys).1 ∧
      ((chain op f xs ys).2.carry = true ↔ d.number xs < d.number ys + f.carry.toNat) := by
  obtain ⟨hzs, hvalue⟩ := number_chain (f := f) hop h hxs hys
  have hlt := d.number_lt hzs
  rw [← @length_chain op f xs ys h] at hvalue ⊢
  refine ⟨represents_of_eq hzs (-(chain op f xs ys).2.carry.toNat)
    (by linear_combination hvalue), ?_⟩
  zify at hlt ⊢
  cases hcarry : (chain op f xs ys).2.carry <;> simp [hcarry] at hvalue ⊢ <;> omega

end Chain

end Digits

end Z80
