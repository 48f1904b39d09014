import Z80.Assembly.Encode
import Z80.Disassembly.Format
import Z80.Proofs.Catalog.Roles
import Z80.Proofs.Expr.Simple

/-!
# Relative targets without labels

A relative target that has no label is written as `$` and an offset.  The offset is added to the
address without a carry: a target behind address `FFFFh` has a value that is no word, although the
processor would go on at address 0.  In front of address 0 the value is negative, and it stands for
the word that is meant.

## Main definitions

* `Z80.IsNear` — a target whose distance is written with a byte.
* `Z80.relativeValue` — what the text of a target is worth.
* `Z80.relativePassesEnd` — whether the offset of a target leads past the last address.

## Main results

* `Z80.evaluate_relativeText` — the value of a relative target as it is written.
* `Z80.relativeByte_relativeText` — it is encoded as the byte it was taken from, unless it leads
  past the last address.
* `Z80.relativeByte_relativeText_eq_error` — then it has no encoding.
-/

namespace Z80

open Z80.Expr (IsNumeral)

variable {scope : Expr.Scope} {address target : UInt16}

/-! ### Distances -/

/-- A target whose distance is written with a byte. -/
structure IsNear (address target : UInt16) : Prop where
  low : -256 < (target - address).toInt16.toInt
  high : (target - address).toInt16.toInt < 256

/-- The address with the offset of a target, which need not be an address. -/
def relativeValue (address target : UInt16) : Int :=
  address.toNat + (target - address).toInt16.toInt

/-- Whether a target is written as an offset that leads past the last address. -/
def relativePassesEnd (address target : UInt16) : Bool :=
  0 < (target - address).toInt16 && target < address

/-- The distance of a target is that of the addresses, modulo 2 to the 16th. -/
lemma toInt_distance (address target : UInt16) : (target - address).toInt16.toInt =
    ((target.toNat : Int) - address.toNat).bmod 65536 := by
  have hint : (target - address).toInt16.toInt = ((target - address).toNat : Int).bmod 65536 :=
    BitVec.toInt_eq_toNat_bmod _
  have htarget := target.toNat_lt
  have haddress := address.toNat_lt
  rw [hint, UInt16.toNat_sub]
  simp only [Int.bmod_def]
  omega

/-- An offset leads past the last address if the sum is no address. -/
lemma relativePassesEnd_iff (address target : UInt16) :
    relativePassesEnd address target = true ↔ 65535 < relativeValue address target := by
  have htarget := target.toNat_lt
  have haddress := address.toNat_lt
  rw [relativeValue, relativePassesEnd, Bool.and_eq_true, decide_eq_true_eq, decide_eq_true_eq,
    Int16.lt_iff_toInt_lt, UInt16.lt_iff_toNat_lt, toInt_distance, Int16.toInt_zero]
  simp only [Int.bmod_def]
  omega

/-- The value of a near target is a small number. -/
lemma toInt_relativeValue (h : IsNear address target) :
    (Int64.ofInt (relativeValue address target)).toInt = relativeValue address target := by
  have hlow := h.low
  have hhigh := h.high
  have haddress := address.toNat_lt
  exact Int64.toInt_ofInt_of_le (by unfold relativeValue; omega) (by unfold relativeValue; omega)

/-- A target that is measured from behind an instruction of two bytes is near. -/
lemma isNear_signExtend (address : UInt16) (b : UInt8) :
    IsNear address (address + 1 + 1 + signExtend b) := by
  have hdistance : address + 1 + 1 + signExtend b - address = 2 + signExtend b := by grind
  have key := List.all_eq_true.1 (by decide +kernel : (allBytes.all fun b =>
    decide (-256 < (2 + signExtend b).toInt16.toInt) &&
      decide ((2 + signExtend b).toInt16.toInt < 256)) = true) b (mem_allBytes b)
  rw [Bool.and_eq_true, decide_eq_true_eq, decide_eq_true_eq, ← hdistance] at key
  exact ⟨key.1, key.2⟩

/-! ### Texts -/

/-- A relative target is written as `$`, or with a sign and a byte behind it. -/
lemma relativeText_cases (address target : UInt16) :
    relativeText address target = "$" ∧ (target - address).toInt16.toInt = 0 ∨
    ∃ (isNegative : Bool) (b : UInt8), relativeText address target =
        "$" ++ ((if isNegative then "-" else "+") ++ Text.byteNumeral b) ∧
      (IsNear address target →
        (target - address).toInt16.toInt = if isNegative then -(b.toNat : Int) else b.toNat) := by
  have hdistance := toInt_distance address target
  have htarget := target.toNat_lt
  have haddress := address.toNat_lt
  unfold relativeText
  dsimp only
  split
  · next hzero => exact .inl ⟨rfl, by rw [hzero, Int16.toInt_zero]⟩
  · split
    · next hpositive =>
      refine .inr ⟨false, (target - address).toUInt8, by rw [← String.append_assoc]; rfl,
        fun hnear => ?_⟩
      have hlow := Int16.lt_iff_toInt_lt.1 hpositive
      have hhigh := hnear.high
      rw [UInt16.toNat_toUInt8, UInt16.toNat_sub, hdistance, if_neg (by simp)]
      rw [Int16.toInt_zero, hdistance] at hlow
      rw [hdistance] at hhigh
      simp only [Int.bmod_def] at hlow hhigh ⊢
      omega
    · next hpositive =>
      refine .inr ⟨true, (address - target).toUInt8, by rw [← String.append_assoc]; rfl,
        fun hnear => ?_⟩
      have hlow := hnear.low
      have hhigh : ¬0 < (target - address).toInt16.toInt := by
        rwa [Int16.lt_iff_toInt_lt, Int16.toInt_zero] at hpositive
      rw [UInt16.toNat_toUInt8, UInt16.toNat_sub, hdistance, if_pos rfl]
      rw [hdistance] at hlow hhigh
      simp only [Int.bmod_def] at hlow hhigh ⊢
      omega

/-- A relative target says that the value depends on the location. -/
lemma isPositionDependent_relativeText (address target : UInt16) :
    Expr.isPositionDependent (relativeText address target) := by
  rcases relativeText_cases address target with ⟨htext, -⟩ | ⟨isNegative, b, htext, -⟩
  · rw [htext]
    decide +kernel
  · rw [htext, Expr.isPositionDependent,
      Expr.tokenize_here_signed isNegative (Text.isNumeral_byteNumeral b)]
    rfl

/-! ### Values -/

/-- **A relative target is worth the address with its offset.** -/
theorem evaluate_relativeText (hnear : IsNear scope.here target) :
    Expr.evaluate scope (relativeText scope.here target) =
      .ok (.ofInt (relativeValue scope.here target)) := by
  have hlt := scope.here.toNat_lt
  have hhere : (Int64.ofNat scope.here.toNat).toInt = scope.here.toNat :=
    Expr.toInt_ofNat (by omega)
  have hback {value : Int64} (hvalue : value.toInt = relativeValue scope.here target) :
      .ofInt (relativeValue scope.here target) = value := by
    rw [← hvalue, Int64.ofInt_toInt]
  rcases relativeText_cases scope.here target with ⟨htext, hzero⟩ | ⟨isNegative, b, htext, hoffset⟩
  · rw [htext, Expr.evaluate_here, hback]
    rw [hhere, relativeValue, hzero, Int.add_zero]
  · have hb := b.toNat_lt
    have hbyte : (Int64.ofNat b.toNat).toInt = b.toNat := Expr.toInt_ofNat (by omega)
    rw [htext, Expr.evaluate_here_signed scope isNegative (Text.isNumeral_byteNumeral b), hback]
    rw [relativeValue, hoffset hnear]
    cases isNegative with
    | false =>
      rw [if_neg (by simp), if_neg (by simp), Int64.toInt_add, hhere, hbyte, Int.bmod_eq_of_le]
      · omega
      · omega
    | true =>
      rw [if_pos rfl, if_pos rfl, Int64.toInt_sub, hhere, hbyte, Int.bmod_eq_of_le]
      · omega
      · omega
      · omega

/-- A relative target has its own value, unless it leads past the last address. -/
lemma evaluateWord_relativeText (hnear : IsNear scope.here target)
    (hend : relativePassesEnd scope.here target = false) :
    Expr.evaluateWord scope (relativeText scope.here target) = .ok target := by
  have hint := toInt_relativeValue hnear
  have hhigh : ¬65535 < relativeValue scope.here target := by
    rw [← relativePassesEnd_iff, hend]
    simp
  have hlow := hnear.low
  have hlt := target.toNat_lt
  rw [relativeValue] at hint hhigh
  refine Expr.evaluateWord_eq_ok_of_range (evaluate_relativeText hnear) ?_ ?_ ?_
  · rw [relativeValue]
    omega
  · rw [relativeValue]
    omega
  · rw [relativeValue, hint, toInt_distance]
    simp only [Int.bmod_def]
    omega

/-- A relative target that leads past the last address is no word. -/
lemma evaluateWord_relativeText_eq_error (hnear : IsNear scope.here target)
    (hend : relativePassesEnd scope.here target = true) :
    Expr.evaluateWord scope (relativeText scope.here target) =
      .error (.outOfRange (.ofInt (relativeValue scope.here target)) .word) := by
  refine Expr.evaluateWord_eq_error (evaluate_relativeText hnear) ?_
  rw [toInt_relativeValue hnear]
  exact (relativePassesEnd_iff _ _).1 hend

/-! ### Encodings -/

/-- A small offset is encoded as the byte that it was taken from. -/
lemma offsetByte_signExtend (b : UInt8) :
    offsetByte (signExtend b).toInt16.toInt = .ok b := by
  have hlow := b.toInt8.le_toInt
  have hhigh := b.toInt8.toInt_lt
  have hint : (signExtend b).toInt16.toInt = b.toInt8.toInt := by
    rw [signExtend, Int16.toInt16_toUInt16, Int8.toInt_toInt16]
  rw [offsetByte, hint, if_neg (by omega), if_neg (by omega), Int8.ofInt_toInt]
  rfl

/-- A text that has the value of a target is encoded as the distance from behind the byte. -/
lemma relativeByte_eq_ok {here : UInt16} {text : String} {b : UInt8}
    (hdependent : Expr.isPositionDependent text)
    (htarget : Expr.evaluateWord scope text = .ok (here + 1 + signExtend b)) :
    relativeByte scope here text = .ok b := by
  have hoffset : here + 1 + signExtend b - here - 1 = signExtend b := by grind
  rw [relativeByte, if_pos hdependent, htarget]
  simp only [liftExpr, ok_bind, hoffset]
  exact offsetByte_signExtend b

/-- **A relative target is encoded as the byte it was taken from**, unless it leads past the last
address. -/
theorem relativeByte_relativeText {b : UInt8}
    (hend : relativePassesEnd scope.here (scope.here + 1 + 1 + signExtend b) = false) :
    relativeByte scope (scope.here + 1)
      (relativeText scope.here (scope.here + 1 + 1 + signExtend b)) = .ok b :=
  relativeByte_eq_ok (isPositionDependent_relativeText _ _)
    (evaluateWord_relativeText (isNear_signExtend _ _) hend)

/-- **A relative target that leads past the last address has no encoding.** -/
theorem relativeByte_relativeText_eq_error (here : UInt16) (hnear : IsNear scope.here target)
    (hend : relativePassesEnd scope.here target = true) :
    relativeByte scope here (relativeText scope.here target) =
      .error (.expression (.outOfRange (.ofInt (relativeValue scope.here target)) .word)) := by
  rw [relativeByte, if_pos (isPositionDependent_relativeText _ _),
    evaluateWord_relativeText_eq_error hnear hend]
  rfl

end Z80
