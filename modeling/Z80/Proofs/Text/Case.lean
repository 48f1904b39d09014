import Z80.Expr.Lexer
import Z80.Proofs.Text.Numeral
import Z80.Text.Fold

/-!
# Characters in lower case

Only the letters `A` to `Z` change in lower case, and each question that is asked of the characters
of source text has the same answer for a letter in both cases.  A numeral is worth the same and a
word is the same lexeme.

## Main results

* `Z80.Text.apply_toLower` — what is the same for both cases of the ASCII letters is so for all.
* `Z80.Expr.numeral?_toLower`, `Z80.Expr.hexNumeral?_toLower` — numerals in lower case.
* `Z80.Expr.wordLexeme_toLower` — words in lower case.
-/

namespace Z80

namespace Text

/-- Only ASCII characters change in lower case. -/
lemma toLower_of_le {c : Char} (h : 128 ≤ c.toNat) : c.toLower = c := by
  unfold Char.toLower
  refine dif_neg fun hupper => ?_
  have hle : c.toNat ≤ 90 := UInt32.le_iff_toNat_le.1 hupper.2
  omega

/-- What is the same for both cases of the ASCII characters is so for all characters. -/
lemma apply_toLower {α : Type} [DecidableEq α] (f : Char → α)
    (h : ∀ n < 128, f (Char.ofNat n).toLower = f (Char.ofNat n)) (c : Char) :
    f c.toLower = f c := by
  rcases Nat.lt_or_ge c.toNat 128 with hascii | hother
  · have key := Expr.forall_ascii (P := fun c => decide (f c.toLower = f c))
      (fun n hn => decide_eq_true (h n hn)) hascii
    exact of_decide_eq_true key
  · rw [toLower_of_le hother]

/-- What the readers of source text ask of a character has the same answer in lower case. -/
lemma answers_toLower (c : Char) :
    c.toLower.toLower = c.toLower ∧ isBlank c.toLower = isBlank c ∧
      c.toLower.isAlpha = c.isAlpha ∧ c.toLower.isDigit = c.isDigit ∧
      Expr.isWordChar c.toLower = Expr.isWordChar c ∧
      Expr.digitValue? c.toLower = Expr.digitValue? c := by
  rcases Nat.lt_or_ge c.toNat 128 with hascii | hother
  · have key := Expr.forall_ascii
      (P := fun c => c.toLower.toLower == c.toLower && isBlank c.toLower == isBlank c &&
        c.toLower.isAlpha == c.isAlpha && c.toLower.isDigit == c.isDigit &&
        Expr.isWordChar c.toLower == Expr.isWordChar c &&
        Expr.digitValue? c.toLower == Expr.digitValue? c)
      (by decide +kernel) hascii
    simpa only [Bool.and_eq_true, beq_iff_eq, and_assoc] using key
  · simp only [toLower_of_le hother, and_self]

/-- A letter in lower case is in lower case for good. -/
@[simp]
lemma toLower_toLower (c : Char) : c.toLower.toLower = c.toLower :=
  (answers_toLower c).1

/-- A blank in lower case. -/
@[simp]
lemma isBlank_toLower (c : Char) : isBlank c.toLower = isBlank c :=
  (answers_toLower c).2.1

/-- A letter in lower case is a letter. -/
@[simp]
lemma isAlpha_toLower (c : Char) : c.toLower.isAlpha = c.isAlpha :=
  (answers_toLower c).2.2.1

/-- Only letters change in lower case. -/
lemma toLower_of_isAlpha_eq_false {c : Char} (h : c.isAlpha = false) : c.toLower = c := by
  rcases Nat.lt_or_ge c.toNat 128 with hascii | hother
  · have key := Expr.forall_ascii (P := fun c => c.isAlpha || c.toLower == c) (by decide +kernel)
      hascii
    simpa [h] using key
  · exact toLower_of_le hother

/-- A character that is no letter is the lower case of itself alone. -/
lemma toLower_eq_iff {c d : Char} (hd : d.isAlpha = false) : c.toLower = d ↔ c = d := by
  constructor
  · rintro rfl
    rw [isAlpha_toLower] at hd
    exact (toLower_of_isAlpha_eq_false hd).symm
  · rintro rfl
    exact toLower_of_isAlpha_eq_false hd

/-- A text in lower case is in lower case for good. -/
@[simp]
lemma map_toLower_map_toLower (cs : List Char) :
    (cs.map Char.toLower).map Char.toLower = cs.map Char.toLower := by
  simp

/-- A string in lower case is in lower case for good. -/
@[simp]
lemma lower_lower (s : String) : lower (lower s) = lower s := by
  rw [lower, lower, String.toList_ofList, map_toLower_map_toLower]

end Text

namespace Expr

/-- A character of words in lower case. -/
@[simp]
lemma isWordChar_toLower (c : Char) : isWordChar c.toLower = isWordChar c :=
  (Text.answers_toLower c).2.2.2.2.1

/-- A digit in lower case. -/
@[simp]
lemma isDigit_toLower (c : Char) : c.toLower.isDigit = c.isDigit :=
  (Text.answers_toLower c).2.2.2.1

/-- A digit is worth the same in both cases. -/
lemma digitValue?_toLower (c : Char) : digitValue? c.toLower = digitValue? c :=
  (Text.answers_toLower c).2.2.2.2.2

/-- A digit is worth the same in both cases, in each radix. -/
@[simp]
lemma digit?_toLower (radix : Nat) (c : Char) : digit? radix c.toLower = digit? radix c := by
  rw [digit?, digit?, digitValue?_toLower]

/-- A hexadecimal digit in lower case. -/
@[simp]
lemma isHexDigit_toLower (c : Char) : isHexDigit c.toLower = isHexDigit c := by
  simp [isHexDigit]

/-- Digits are worth the same in both cases. -/
lemma readDigits_toLower (radix value : Nat) (cs : List Char) :
    readDigits radix value (cs.map Char.toLower) = readDigits radix value cs := by
  induction cs generalizing value with
  | nil => rfl
  | cons c cs ih =>
    rw [List.map_cons, readDigits, readDigits, digit?_toLower]
    cases digit? radix c with
    | none => rfl
    | some d => exact ih _

/-- **A numeral is worth the same in lower case.** -/
theorem numeral?_toLower (word : List Char) :
    numeral? (word.map Char.toLower) = numeral? word := by
  rw [numeral?, numeral?, Text.map_toLower_map_toLower]

/-- **A hexadecimal numeral is worth the same in lower case.** -/
theorem hexNumeral?_toLower (word : List Char) :
    hexNumeral? (word.map Char.toLower) = hexNumeral? word := by
  rw [hexNumeral?, hexNumeral?, number?, number?, readDigits_toLower, List.isEmpty_map]

/-- **A word is the same lexeme in lower case.** -/
theorem wordLexeme_toLower (word : List Char) :
    wordLexeme (word.map Char.toLower) = wordLexeme word := by
  rw [wordLexeme, wordLexeme, Text.map_toLower_map_toLower]

end Expr

end Z80
