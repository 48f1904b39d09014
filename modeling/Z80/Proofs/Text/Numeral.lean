import Mathlib.Data.List.Basic
import Mathlib.Tactic.Ring
import Z80.Expr.Numeral
import Z80.Text.Numeral

/-!
# Numerals read back

The numerals that bytes and words are written with have the values of these bytes and words.

## Main definitions

* `Z80.Expr.IsNumeral` — the characters of a numeral with a value.

## Main results

* `Z80.Expr.readDigits_hexDigits` — hexadecimal digits read back.
* `Z80.Text.isNumeral_byteNumeral`, `Z80.Text.isNumeral_wordNumeral` — so do the numerals of bytes
  and words.
* `Z80.Expr.IsNumeral.map_toLower` — a numeral keeps its value in lower case.
-/

namespace Z80

namespace Expr

open Text (hexDigit hexDigits)

/-- The characters of a numeral that is worth `n`: letters and digits, of which the first is a
digit. -/
structure IsNumeral (cs : List Char) (n : Nat) : Prop where
  head : cs.head?.any Char.isDigit
  alphanum : ∀ c ∈ cs, c.isAlphanum
  value : numeral? cs = some (Int64.ofNat n)

/-! ### ASCII characters -/

/-- What holds for every ASCII character by its code holds for each of them. -/
lemma forall_ascii {P : Char → Bool} (h : ∀ n < 128, P (Char.ofNat n) = true) {c : Char}
    (hc : c.toNat < 128) : P c = true := by
  have key := h c.toNat hc
  rwa [Char.ofNat_toNat] at key

/-- Letters and digits are visible ASCII characters. -/
lemma toNat_of_isAlphanum {c : Char} (h : c.isAlphanum) : 0x20 < c.toNat ∧ c.toNat < 0x7F := by
  unfold Char.isAlphanum Char.isAlpha Char.isUpper Char.isLower Char.isDigit at h
  simp only [Bool.or_eq_true, Bool.and_eq_true, decide_eq_true_eq, UInt32.le_iff_toNat_le,
    ge_iff_le] at h
  change ((65 ≤ c.toNat ∧ c.toNat ≤ 90) ∨ (97 ≤ c.toNat ∧ c.toNat ≤ 122)) ∨
    (48 ≤ c.toNat ∧ c.toNat ≤ 57) at h
  omega

/-- A letter or digit in lower case is what it was, and in lower case for good. -/
lemma toLower_of_isAlphanum {c : Char} (h : c.isAlphanum) :
    c.toLower.isAlphanum ∧ c.toLower.isDigit = c.isDigit ∧ c.toLower.toLower = c.toLower := by
  have key : (!c.isAlphanum || c.toLower.isAlphanum && c.toLower.isDigit == c.isDigit &&
      c.toLower.toLower == c.toLower) = true :=
    forall_ascii (P := fun c => !c.isAlphanum || c.toLower.isAlphanum &&
      c.toLower.isDigit == c.isDigit && c.toLower.toLower == c.toLower) (by decide +kernel)
      (Nat.lt_trans (toNat_of_isAlphanum h).2 (by decide))
  simpa [h, and_assoc] using key

/-- A digit has no case. -/
lemma toLower_of_isDigit {c : Char} (h : c.isDigit) : c.toLower = c := by
  have halphanum : c.isAlphanum := by simp [Char.isAlphanum, h]
  have key : (!c.isDigit || c.toLower == c) = true :=
    forall_ascii (P := fun c => !c.isDigit || c.toLower == c) (by decide +kernel)
      (Nat.lt_trans (toNat_of_isAlphanum halphanum).2 (by decide))
  simpa [h] using key

/-! ### Digits -/

/-- A hexadecimal digit reads back, also in lower case. -/
lemma digit?_hexDigit : ∀ n < 16, digit? 16 (hexDigit n).toLower = some n := by
  decide

/-- A hexadecimal digit is a digit or a letter, but not both. -/
lemma isDigit_or_isAlpha_hexDigit : ∀ n < 16, (hexDigit n).isDigit = !(hexDigit n).isAlpha := by
  decide

/-- Hexadecimal digits are the digits of numbers below sixteen. -/
lemma exists_of_mem_hexDigits {width n : Nat} {c : Char} (h : c ∈ hexDigits width n) :
    ∃ k < 16, c = hexDigit k := by
  induction width generalizing n with
  | zero => simp [hexDigits] at h
  | succ width ih =>
    rw [hexDigits, List.mem_append, List.mem_singleton] at h
    rcases h with hmem | rfl
    · exact ih hmem
    · exact ⟨n % 16, Nat.mod_lt _ (by decide), rfl⟩

/-- Digits in two portions. -/
lemma readDigits_append {radix value : Nat} {ds es : List Char} :
    readDigits radix value (ds ++ es) =
      (readDigits radix value ds).bind fun value => readDigits radix value es := by
  induction ds generalizing value with
  | nil => rfl
  | cons d ds ih =>
    rw [List.cons_append, readDigits, readDigits]
    cases digit? radix d with
    | none => rfl
    | some k => exact ih

/-- **Hexadecimal digits read back**, in lower case. -/
theorem readDigits_hexDigits (width n value : Nat) :
    readDigits 16 value ((hexDigits width n).map Char.toLower) =
      some (value * 16 ^ width + n % 16 ^ width) := by
  induction width generalizing n with
  | zero => simp [hexDigits, readDigits, Nat.mod_one]
  | succ width ih =>
    have hlast : n % 16 < 16 := Nat.mod_lt _ (by decide)
    have hmod : n % (16 ^ width * 16) = n / 16 % 16 ^ width * 16 + n % 16 := by
      rw [Nat.mul_comm (16 ^ width), Nat.mod_mul]
      omega
    rw [hexDigits, List.map_append, readDigits_append, ih, Option.bind_some]
    simp only [List.map_cons, List.map_nil, readDigits, digit?_hexDigit _ hlast]
    rw [Nat.pow_succ, hmod, Nat.add_mul, Nat.mul_assoc, Nat.add_assoc]

/-! ### Numerals -/

/-- A letter behind hexadecimal digits is what tells their radix. -/
lemma splitRadix_append {ds : List Char} (h : ∀ c ∈ ds, isHexDigit c) :
    splitRadix (ds ++ ['h']) = (16, ds) := by
  have hnox : 'x' ∉ ds := fun hmem => absurd (h 'x' hmem) (by decide)
  unfold splitRadix
  split
  · next digits heq =>
    exfalso
    match ds, heq with
    | [], heq => simp at heq
    | [c], heq => simp at heq
    | c :: d :: ds, heq =>
      simp only [List.cons_append, List.cons.injEq] at heq
      exact hnox (by simp [heq.2.1])
  · rw [List.getLast?_append_of_ne_nil _ (by simp)]
    simp

/-- Hexadecimal digits with a letter behind them are a numeral if the first is a digit. -/
lemma isNumeral_append {ds : List Char} {n : Nat} (hhead : ds.head?.any Char.isDigit)
    (hdigits : ∀ c ∈ ds, ∃ k < 16, c = hexDigit k)
    (hread : readDigits 16 0 (ds.map Char.toLower) = some n) (hn : n < 0x8000000000000000) :
    IsNumeral (ds ++ ['h']) n where
  head := by
    cases ds with
    | nil => simp at hhead
    | cons d ds => exact hhead
  alphanum c hc := by
    rw [List.mem_append, List.mem_singleton] at hc
    rcases hc with hmem | rfl
    · obtain ⟨k, hk, rfl⟩ := hdigits c hmem
      have key := isDigit_or_isAlpha_hexDigit k hk
      rw [Char.isAlphanum, key, Bool.or_not_self]
    · decide
  value := by
    have hhex : ∀ c ∈ ds.map Char.toLower, isHexDigit c := by
      intro c hc
      obtain ⟨d, hd, rfl⟩ := List.mem_map.1 hc
      obtain ⟨k, hk, rfl⟩ := hdigits d hd
      rw [isHexDigit, digit?_hexDigit k hk]
      rfl
    have hne : ds.map Char.toLower ≠ [] := by
      rintro heq
      rw [List.map_eq_nil_iff] at heq
      simp [heq] at hhead
    have hsplit : splitRadix ((ds ++ ['h']).map Char.toLower) = (16, ds.map Char.toLower) := by
      rw [List.map_append]
      exact splitRadix_append hhex
    simp only [numeral?, hsplit, number?, hread]
    rw [if_neg (by simpa using hne), if_pos hn]

namespace IsNumeral

variable {cs : List Char} {n : Nat}

/-- **A numeral keeps its value in lower case.** -/
theorem map_toLower (h : IsNumeral cs n) : IsNumeral (cs.map Char.toLower) n where
  head := by
    have hhead := h.head
    cases cs with
    | nil => simp at hhead
    | cons c cs =>
      have hc := toLower_of_isAlphanum (h.alphanum c List.mem_cons_self)
      simpa [hc.2.1] using hhead
  alphanum c hc := by
    obtain ⟨d, hd, rfl⟩ := List.mem_map.1 hc
    exact (toLower_of_isAlphanum (h.alphanum d hd)).1
  value := by
    have hidem : (cs.map Char.toLower).map Char.toLower = cs.map Char.toLower := by
      rw [List.map_map]
      exact List.map_congr_left fun c hc => (toLower_of_isAlphanum (h.alphanum c hc)).2.2
    rw [← h.value, numeral?, numeral?, hidem]

end IsNumeral

end Expr

/-! ### Bytes and words -/

namespace Text

open Z80.Expr

/-- Hexadecimal digits that are enough for a number make a numeral of it. -/
lemma isNumeral_numeralOf {width n : Nat} (hn : n < 16 ^ (width + 1))
    (hwidth : 16 ^ (width + 1) ≤ 0x8000000000000000) :
    IsNumeral (numeralOf (hexDigits (width + 1) n)).toList n := by
  have hread := readDigits_hexDigits (width + 1) n 0
  rw [Nat.zero_mul, Nat.zero_add, Nat.mod_eq_of_lt hn] at hread
  have hdigits : ∀ c ∈ hexDigits (width + 1) n, ∃ k < 16, c = hexDigit k :=
    fun c hc => exists_of_mem_hexDigits hc
  have hlt : n < 0x8000000000000000 := Nat.lt_of_lt_of_le hn hwidth
  rw [numeralOf, String.toList_ofList]
  cases hall : hexDigits (width + 1) n with
  | nil => simp [hexDigits] at hall
  | cons d ds =>
    rw [hall] at hread hdigits
    obtain ⟨k, hk, rfl⟩ := hdigits d List.mem_cons_self
    have hdigit := isDigit_or_isAlpha_hexDigit k hk
    by_cases halpha : (hexDigit k).isAlpha
    · rw [if_pos (by simpa using halpha)]
      refine isNumeral_append rfl (fun c hc => ?_) ?_ hlt
      · rcases List.mem_cons.1 hc with rfl | hmem
        · exact ⟨0, by decide, by decide⟩
        · exact hdigits c hmem
      · rwa [List.map_cons, readDigits, show digit? 16 ('0' : Char).toLower = some 0 by decide]
    · rw [if_neg (by simpa using halpha)]
      exact isNumeral_append (by simpa [halpha] using hdigit) hdigits hread hlt

/-- **The numeral of a byte is worth that byte.** -/
theorem isNumeral_byteNumeral (b : UInt8) : IsNumeral (byteNumeral b).toList b.toNat :=
  isNumeral_numeralOf b.toNat_lt (by decide)

/-- **The numeral of a word is worth that word.** -/
theorem isNumeral_wordNumeral (w : UInt16) : IsNumeral (wordNumeral w).toList w.toNat :=
  isNumeral_numeralOf w.toNat_lt (by decide)

end Text

end Z80
