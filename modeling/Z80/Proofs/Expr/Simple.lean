import Z80.Expr.Eval
import Z80.Proofs.Result
import Z80.Proofs.Text.Lines
import Z80.Proofs.Text.Numeral
import Z80.Text.Fold

/-!
# Simple expressions

The expressions of machine-made source text are numerals, names, and either of them in parentheses
or behind a sign.  They are worth what they say, numerals in every scope.

## Main definitions

* `Z80.Expr.IsIdentifier` — the characters of a name.
* `Z80.Expr.IsName` — the characters of a name in lower case.
* `Z80.Expr.Scope.Knows` — a scope in which labels have the values of their addresses.

## Main results

* `Z80.Expr.evaluate_numeral`, `Z80.Expr.evaluate_enclosed`, `Z80.Expr.evaluate_signed` — the
  value of a numeral, alone, in parentheses and behind a sign.
* `Z80.Expr.evaluate_here_signed` — the value of a location with an offset.
* `Z80.Expr.evaluate_identifier`, `Z80.Expr.evaluate_name` — the value of a name.
* `Z80.Expr.evaluateByte_eq_ok`, `Z80.Expr.evaluateWord_eq_ok` — values of bytes and words fit.
* `Z80.Expr.evaluateWord_eq_ok_iff` — the values that words have.
-/

namespace Z80.Expr

open Text (isBlank isBlank_eq_false)

/-- The characters of a name: a word that is neither a numeral nor an operator. -/
structure IsIdentifier (cs : List Char) : Prop where
  head : ∃ c ∈ cs.head?, c.isDigit = false
  isWordChar : ∀ c ∈ cs, isWordChar c
  ne_and : cs.map Char.toLower ≠ ['a', 'n', 'd']
  ne_or : cs.map Char.toLower ≠ ['o', 'r']

/-- The characters of a name that is written in lower case. -/
structure IsName (cs : List Char) : Prop where
  head : ∃ c ∈ cs.head?, c.isDigit = false
  isWordChar : ∀ c ∈ cs, isWordChar c
  lower : cs.map Char.toLower = cs
  ne_and : cs ≠ ['a', 'n', 'd']
  ne_or : cs ≠ ['o', 'r']

/-- A name in lower case is a name. -/
lemma IsName.isIdentifier {cs : List Char} (h : IsName cs) : IsIdentifier cs where
  head := h.head
  isWordChar := h.isWordChar
  ne_and := h.lower.symm ▸ h.ne_and
  ne_or := h.lower.symm ▸ h.ne_or

/-- A scope in which labels have the values of their addresses. -/
def Scope.Knows (scope : Scope) (label : UInt16 → Option String) : Prop :=
  ∀ (address : UInt16) (name : String), label address = some name →
    scope.lookup name = some address

/-! ### Tokens -/

/-- Characters of words are not blank. -/
lemma isBlank_of_isWordChar {c : Char} (h : isWordChar c) : isBlank c = false := by
  simp only [isWordChar, Bool.or_eq_true, decide_eq_true_eq] at h
  rcases h with (((halphanum | rfl) | rfl) | rfl) | rfl
  · obtain ⟨hlow, hhigh⟩ := toNat_of_isAlphanum halphanum
    exact isBlank_eq_false hlow hhigh
  all_goals decide

/-- A letter or digit is a character of words. -/
lemma isWordChar_of_isAlphanum {c : Char} (h : c.isAlphanum) : isWordChar c := by
  simp [isWordChar, h]

/-- A word ends where a character follows that belongs to no word. -/
lemma takeWhile_isWordChar {word rest : List Char} (hword : ∀ c ∈ word, isWordChar c)
    (hrest : ∀ c ∈ rest.head?, isWordChar c = false) :
    (word ++ rest).takeWhile isWordChar = word := by
  rw [List.takeWhile_append_of_pos hword]
  cases rest with
  | nil => simp
  | cons c cs => simp [hrest c rfl]

section Tokens

variable {cs rest : List Char} {column n : Nat} {tokens : List Token}

/-- A token that takes some characters is followed by the tokens of the others. -/
lemma tokensFrom_of_scan {c : Char} {lexeme : Lexeme} (hblank : isBlank c = false)
    (hscan : scan column c (cs ++ rest) = .ok (lexeme, cs.length))
    (hrest : tokensFrom (column + 1 + cs.length) rest = .ok tokens) :
    tokensFrom column (c :: cs ++ rest) = .ok (⟨lexeme, column⟩ :: tokens) := by
  rw [List.cons_append, tokensFrom, if_neg (by simp [hblank]), hscan]
  simp only [List.drop_left, hrest]

/-- The token of a numeral. -/
lemma tokensFrom_numeral (hcs : IsNumeral cs n) (hend : ∀ c ∈ rest.head?, isWordChar c = false)
    (hrest : tokensFrom (column + cs.length) rest = .ok tokens) :
    tokensFrom column (cs ++ rest) = .ok (⟨.number (Int64.ofNat n), column⟩ :: tokens) := by
  match cs, hcs with
  | [], hcs => exact absurd hcs.head (by simp)
  | c :: cs, hcs =>
    have hdigit : c.isDigit := by simpa using hcs.head
    have hword : ∀ d ∈ c :: cs, isWordChar d := fun d hd =>
      isWordChar_of_isAlphanum (hcs.alphanum d hd)
    refine tokensFrom_of_scan (isBlank_of_isWordChar (hword c List.mem_cons_self)) ?_ ?_
    · have htake := takeWhile_isWordChar (fun d hd => hword d (List.mem_cons_of_mem _ hd)) hend
      simp only [scan, if_pos hdigit, htake, hcs.value]
    · rw [Nat.add_assoc, Nat.add_comm 1]
      exact hrest

/-- A name is a lexeme by its characters in lower case. -/
lemma wordLexeme_eq_name (hcs : IsIdentifier cs) :
    wordLexeme cs = .name (String.ofList (cs.map Char.toLower)) := by
  have hand : String.ofList (cs.map Char.toLower) ≠ "and" := fun heq =>
    hcs.ne_and (by simpa using congrArg String.toList heq)
  have hor : String.ofList (cs.map Char.toLower) ≠ "or" := fun heq =>
    hcs.ne_or (by simpa using congrArg String.toList heq)
  rw [wordLexeme, if_neg hand, if_neg hor]

/-- The token of a name. -/
lemma tokensFrom_name (hcs : IsIdentifier cs) (hend : ∀ c ∈ rest.head?, isWordChar c = false)
    (hrest : tokensFrom (column + cs.length) rest = .ok tokens) :
    tokensFrom column (cs ++ rest) =
      .ok (⟨.name (String.ofList (cs.map Char.toLower)), column⟩ :: tokens) := by
  match cs, hcs with
  | [], hcs => exact absurd hcs.head (by simp)
  | c :: cs, hcs =>
    have hdigit : c.isDigit = false := by simpa using hcs.head
    have hword : isWordChar c := hcs.isWordChar c List.mem_cons_self
    refine tokensFrom_of_scan (isBlank_of_isWordChar hword) ?_ ?_
    · have htake := takeWhile_isWordChar
        (fun d hd => hcs.isWordChar d (List.mem_cons_of_mem _ hd)) hend
      have hdollar : c ≠ '$' := by
        rintro rfl
        exact absurd hword (by decide)
      have hquote : (decide (c = '\x27') || decide (c = '\x22')) = false := by
        rw [Bool.or_eq_false_iff, decide_eq_false_iff_not, decide_eq_false_iff_not]
        constructor
        all_goals
          rintro rfl
          exact absurd hword (by decide)
      rw [scan, if_neg (by simp [hdigit]), if_neg hdollar, hquote, if_neg (by simp), if_pos hword]
      simp only [htake, wordLexeme_eq_name hcs]
    · rw [Nat.add_assoc, Nat.add_comm 1]
      exact hrest

/-- The token of a location, in front of what is no part of a number. -/
lemma tokensFrom_here (hend : ∀ c ∈ rest.head?, isHexDigit c = false)
    (hrest : tokensFrom (column + 1) rest = .ok tokens) :
    tokensFrom column ('$' :: rest) = .ok (⟨.here, column⟩ :: tokens) := by
  have hscan : scan column '$' ([] ++ rest) = .ok (.here, 0) := by
    change scanDollar column rest = .ok (.here, 0)
    cases rest with
    | nil => rfl
    | cons c cs => simp [scanDollar, hend c rfl]
  exact tokensFrom_of_scan (by decide) hscan hrest

/-- The token of an operator or parenthesis. -/
lemma tokensFrom_punct (p : Punct) (hrest : tokensFrom (column + 1) rest = .ok tokens) :
    tokensFrom column (p.char :: rest) = .ok (⟨.punct p, column⟩ :: tokens) := by
  have hscan : scan column p.char ([] ++ rest) = .ok (.punct p, 0) := by
    have hchar := Punct.ofChar?_char p
    unfold scan
    rw [hchar]
    cases p <;> rfl
  have hblank : isBlank p.char = false := by cases p <;> decide
  exact tokensFrom_of_scan hblank hscan hrest

end Tokens

/-! ### Values -/

section Values

variable {s : String} {n : Nat}

/-- The tokens of a numeral alone. -/
lemma tokenize_numeral (h : IsNumeral s.toList n) :
    tokenize s = .ok [⟨.number (Int64.ofNat n), 0⟩] := by
  have hrest : tokensFrom (0 + s.toList.length) [] = .ok [] := by rw [tokensFrom]
  have key := tokensFrom_numeral h (by simp) hrest
  rwa [List.append_nil] at key

/-- **A numeral has its value in every scope.** -/
theorem evaluate_numeral (scope : Scope) (h : IsNumeral s.toList n) :
    evaluate scope s = .ok (Int64.ofNat n) := by
  rw [evaluate, tokenize_numeral h]
  rfl

/-- **A numeral in parentheses has its value in every scope.** -/
theorem evaluate_enclosed (scope : Scope) (h : IsNumeral s.toList n) :
    evaluate scope ("(" ++ s ++ ")") = .ok (Int64.ofNat n) := by
  have hclosing : ∀ column, tokensFrom column [')'] = .ok [⟨.punct .closing, column⟩] :=
    fun column => tokensFrom_punct .closing (by rw [tokensFrom])
  have hnumeral : tokensFrom 1 (s.toList ++ [')']) = .ok
      [⟨.number (Int64.ofNat n), 1⟩, ⟨.punct .closing, 1 + s.toList.length⟩] :=
    tokensFrom_numeral h (by simp; decide) (hclosing _)
  have htokens : tokenize ("(" ++ s ++ ")") = .ok [⟨.punct .opening, 0⟩,
      ⟨.number (Int64.ofNat n), 1⟩, ⟨.punct .closing, 1 + s.toList.length⟩] := by
    have key := tokensFrom_punct .opening hnumeral
    rw [tokenize, String.toList_append, String.toList_append, List.append_assoc]
    exact key
  rw [evaluate, htokens]
  rfl

/-- The tokens of a sign and a numeral. -/
lemma tokensFrom_signed (isNegative : Bool) (h : IsNumeral s.toList n) (column : Nat) :
    tokensFrom column ((if isNegative then "-" else "+").toList ++ s.toList) =
      .ok [⟨.punct (if isNegative then .minus else .plus), column⟩,
        ⟨.number (Int64.ofNat n), column + 1⟩] := by
  have hrest : tokensFrom (column + 1 + s.toList.length) [] = .ok [] := by rw [tokensFrom]
  have hnumeral : tokensFrom (column + 1) s.toList =
      .ok [⟨.number (Int64.ofNat n), column + 1⟩] := by
    have key := tokensFrom_numeral h (by simp) hrest
    rwa [List.append_nil] at key
  cases isNegative with
  | true => exact tokensFrom_punct .minus hnumeral
  | false => exact tokensFrom_punct .plus hnumeral

/-- **A numeral behind a sign has its value with that sign in every scope.** -/
theorem evaluate_signed (scope : Scope) (isNegative : Bool) (h : IsNumeral s.toList n) :
    evaluate scope ((if isNegative then "-" else "+") ++ s) =
      .ok (if isNegative then -Int64.ofNat n else Int64.ofNat n) := by
  rw [evaluate, tokenize, String.toList_append, tokensFrom_signed isNegative h]
  cases isNegative <;> rfl

/-- **A location has its value.** -/
theorem evaluate_here (scope : Scope) :
    evaluate scope "$" = .ok (Int64.ofNat scope.here.toNat) := by
  have htokens : tokenize "$" = .ok [⟨.here, 0⟩] :=
    tokensFrom_here (by simp) (by rw [tokensFrom])
  rw [evaluate, htokens]
  rfl

/-- The tokens of a location with an offset. -/
lemma tokenize_here_signed (isNegative : Bool) (h : IsNumeral s.toList n) :
    tokenize ("$" ++ ((if isNegative then "-" else "+") ++ s)) =
      .ok [⟨.here, 0⟩, ⟨.punct (if isNegative then .minus else .plus), 1⟩,
        ⟨.number (Int64.ofNat n), 2⟩] := by
  rw [tokenize, String.toList_append, String.toList_append]
  refine tokensFrom_here ?_ (tokensFrom_signed isNegative h 1)
  cases isNegative <;> simp <;> decide

/-- **A location with an offset has its value.** -/
theorem evaluate_here_signed (scope : Scope) (isNegative : Bool) (h : IsNumeral s.toList n) :
    evaluate scope ("$" ++ ((if isNegative then "-" else "+") ++ s)) =
      .ok (if isNegative then Int64.ofNat scope.here.toNat - Int64.ofNat n
        else Int64.ofNat scope.here.toNat + Int64.ofNat n) := by
  rw [evaluate, tokenize_here_signed isNegative h]
  cases isNegative <;> rfl

/-- The tokens of a name alone. -/
lemma tokenize_name (h : IsIdentifier s.toList) : tokenize s = .ok [⟨.name (Text.lower s), 0⟩] := by
  have hrest : tokensFrom (0 + s.toList.length) [] = .ok [] := by rw [tokensFrom]
  have key := tokensFrom_name h (by simp) hrest
  rwa [List.append_nil] at key

/-- **A name has the value that its scope gives to it** in lower case. -/
theorem evaluate_identifier {scope : Scope} {w : UInt16} (h : IsIdentifier s.toList)
    (hvalue : scope.lookup (Text.lower s) = some w) :
    evaluate scope s = .ok (Int64.ofNat w.toNat) := by
  have hname : scope.value (Text.lower s) = .ok (Int64.ofNat w.toNat) := by
    rw [Scope.value, hvalue]
  have hunary : unary scope maxDepth [⟨.name (Text.lower s), 0⟩] =
      .ok (Int64.ofNat w.toNat, []) := by
    unfold unary
    simp [call?, startsGroup, hname, Except.map]
  rw [evaluate, tokenize_name h]
  simp [evaluateTokens, expr, layers, chain, hunary, chainFrom]

/-- A name in lower case stands as it is. -/
lemma IsName.lower_eq (h : IsName s.toList) : Text.lower s = s := by
  rw [Text.lower, h.lower, String.ofList_toList]

/-- **A name in lower case has the value that its scope gives to it.** -/
theorem evaluate_name {scope : Scope} {w : UInt16} (h : IsName s.toList)
    (hvalue : scope.lookup s = some w) : evaluate scope s = .ok (Int64.ofNat w.toNat) :=
  evaluate_identifier h.isIdentifier (by rwa [h.lower_eq])

/-- A name says that the value depends on the scope. -/
lemma isPositionDependent_name (h : IsName s.toList) : isPositionDependent s := by
  rw [isPositionDependent, tokenize_name h.isIdentifier]
  rfl

end Values

/-! ### Bytes and words -/

section Range

variable {scope : Scope} {text : String}

/-- Small numbers are values of their own. -/
lemma toInt_ofNat {n : Nat} (h : n < 0x8000000000000000) : (Int64.ofNat n).toInt = n :=
  Int64.toInt_ofNat_of_lt h

/-- **The value of a byte fits a byte.** -/
theorem evaluateByte_eq_ok {b : UInt8} (h : evaluate scope text = .ok (Int64.ofNat b.toNat)) :
    evaluateByte scope text = .ok b := by
  have hb := b.toNat_lt
  have hint : (Int64.ofNat b.toNat).toInt = b.toNat := toInt_ofNat (by omega)
  have hback : (Int64.ofNat b.toNat).toInt8.toUInt8 = b := by
    apply UInt8.toBitVec_inj.1
    simp
  rw [evaluateByte, h, ok_bind, ensureRange, if_pos (by omega), ok_bind, hback]
  rfl

/-- **A value in range is a word**, modulo 2 to the 16th. -/
theorem evaluateWord_eq_ok_of_range {value : Int64} {w : UInt16}
    (h : evaluate scope text = .ok value) (hlow : -32768 ≤ value.toInt)
    (hhigh : value.toInt ≤ 65535) (hw : value.toInt % 65536 = w.toNat) :
    evaluateWord scope text = .ok w := by
  have hback : value.toInt16.toUInt16 = w := by
    apply UInt16.toNat_inj.1
    have hvalue : value.toInt16.toInt = value.toInt.bmod 65536 := Int64.toInt_toInt16 value
    have hword : value.toInt16.toInt = (value.toInt16.toUInt16.toNat : Int).bmod 65536 :=
      BitVec.toInt_eq_toNat_bmod _
    have hlt := value.toInt16.toUInt16.toNat_lt
    simp only [Int.bmod_def] at hvalue hword
    omega
  rw [evaluateWord, h, ok_bind, ensureRange, if_pos ⟨hlow, hhigh⟩, ok_bind, hback]
  rfl

/-- **A word is a value in range**, modulo 2 to the 16th. -/
theorem evaluateWord_eq_ok_iff {w : UInt16} :
    evaluateWord scope text = .ok w ↔
      ∃ value, evaluate scope text = .ok value ∧ -32768 ≤ value.toInt ∧ value.toInt ≤ 65535 ∧
        value.toInt % 65536 = w.toNat := by
  constructor
  · intro h
    obtain ⟨_, hrange, -⟩ := bind_eq_ok_iff.1 h
    obtain ⟨value, hvalue, hrange⟩ := bind_eq_ok_iff.1 hrange
    unfold ensureRange at hrange
    split at hrange
    · next hbounds =>
      obtain ⟨hlow, hhigh⟩ := hbounds
      have hmod : value.toInt % 65536 = (UInt16.ofNat (value.toInt % 65536).toNat).toNat := by
        rw [UInt16.toNat_ofNat']
        omega
      have hword := evaluateWord_eq_ok_of_range hvalue hlow hhigh hmod
      obtain rfl := Except.ok.inj (h.symm.trans hword)
      exact ⟨value, hvalue, hlow, hhigh, hmod⟩
    · cases hrange
  · rintro ⟨value, hvalue, hlow, hhigh, hmod⟩
    exact evaluateWord_eq_ok_of_range hvalue hlow hhigh hmod

/-- A value that is too large is no word. -/
lemma evaluateWord_eq_error {value : Int64} (h : evaluate scope text = .ok value)
    (hhigh : 65535 < value.toInt) :
    evaluateWord scope text = .error (.outOfRange value .word) := by
  rw [evaluateWord, h, ok_bind, ensureRange, if_neg (by omega)]
  rfl

/-- **The value of a word fits a word.** -/
theorem evaluateWord_eq_ok {w : UInt16} (h : evaluate scope text = .ok (Int64.ofNat w.toNat)) :
    evaluateWord scope text = .ok w := by
  have hw := w.toNat_lt
  have hint : (Int64.ofNat w.toNat).toInt = w.toNat := toInt_ofNat (by omega)
  exact evaluateWord_eq_ok_of_range h (by omega) (by omega) (by omega)

/-- **A small value is a displacement.** -/
theorem evaluateDisplacement_eq_ok {value : Int64} {o : Int8} (h : evaluate scope text = .ok value)
    (hvalue : value.toInt = o.toInt) : evaluateDisplacement scope text = .ok o := by
  have hlow := o.le_toInt
  have hhigh := o.toInt_lt
  have hback : value.toInt8 = o := by
    apply Int8.toInt_inj.1
    rw [Int64.toInt_toInt8, hvalue, Int.bmod_eq_of_le (by omega) (by omega)]
  rw [evaluateDisplacement, h, ok_bind, ensureRange, if_pos (by omega), ok_bind, hback]
  rfl

end Range

end Z80.Expr
