import Z80.Operand.Source
import Z80.Proofs.Expr.Derivation
import Z80.Proofs.Expr.Tokens

/-!
# Expressions without blanks

The displacement of an indexed operand is read without its blanks and in lower case.  Most texts say
the same then.  But a word may run into the next one, a dollar sign into a hexadecimal digit, and a
character literal may lose its blank or its capital.

## Main definitions

* `Z80.Expr.squeezed` — the characters of a text without blanks and in lower case.
* `Z80.Expr.isTight` — whether blanks and capitals of a text are only where they say nothing.

## Main results

* `Z80.Expr.scan_squeezed` — the first token is the same in a squeezed text.
* `Z80.Expr.lexemesFrom_squeezed` — so are all tokens, but for their columns.
* `Z80.Expr.evaluate_squeezed` — a squeezed text has the same value, or none either.
-/

namespace Z80.Expr

open Text (isBlank)

variable {c : Char} {cs : List Char} {column column' : Nat} {lexeme : Lexeme} {taken : Nat}

/-- The characters of a text without blanks and in lower case. -/
def squeezed (cs : List Char) : List Char :=
  (cs.filter fun c => !isBlank c).map Char.toLower

/-- Whether what stands behind blanks, if any come first, is no character of a kind. -/
def separates (p : Char → Bool) (cs : List Char) : Bool :=
  !cs.head?.any isBlank || !(squeezed cs).head?.any p

/-- Whether blanks and capitals of a text, of which the first characters are the rest of a literal,
are only where they say nothing. -/
def isTightFrom : (inside : Nat) → List Char → Bool
  | _, [] => true
  | 0, c :: cs =>
    if c = '\x27' || c = '\x22' then isTightFrom 2 cs
    else (!isWordChar c || separates isWordChar cs) && (c ≠ '$' || separates isHexDigit cs)
      && isTightFrom 0 cs
  | inside + 1, c :: cs => !isBlank c && (inside = 0 || c.toLower = c) && isTightFrom inside cs

/-- Whether blanks and capitals of a text are only where they say nothing: no blanks between two
words or between a dollar sign and a hexadecimal digit, and no blanks or capitals in a character
literal. -/
def isTight (cs : List Char) : Bool :=
  isTightFrom 0 cs

/-! ### Squeezed texts -/

@[simp]
lemma squeezed_nil : squeezed [] = [] := rfl

lemma squeezed_of_isBlank (h : isBlank c = true) : squeezed (c :: cs) = squeezed cs := by
  simp [squeezed, h]

lemma squeezed_cons (h : isBlank c = false) : squeezed (c :: cs) = c.toLower :: squeezed cs := by
  simp [squeezed, h]

lemma squeezed_append (cs ds : List Char) : squeezed (cs ++ ds) = squeezed cs ++ squeezed ds := by
  simp [squeezed]

/-- A word keeps its characters. -/
lemma squeezed_word (h : ∀ c ∈ cs, isWordChar c) : squeezed cs = cs.map Char.toLower := by
  rw [squeezed, List.filter_eq_self.2 fun c hc => by simp [isBlank_of_isWordChar (h c hc)]]

/-! ### Tight texts -/

/-- Characters other than quotes are separated from what follows them. -/
lemma isTight_cons (hquote : c ≠ '\x22' ∧ c ≠ '\x27') (h : isTight (c :: cs)) :
    (isWordChar c → separates isWordChar cs) ∧ (c = '$' → separates isHexDigit cs) ∧
      isTight cs := by
  simp only [isTight, isTightFrom, hquote, decide_false, Bool.or_self, Bool.false_eq_true,
    ↓reduceIte, Bool.and_eq_true, Bool.or_eq_true, Bool.not_eq_true', decide_eq_true_eq] at h
  obtain ⟨⟨hword, hdollar⟩, htight⟩ := h
  exact ⟨fun h => by simpa [h] using hword, fun h => by simpa [h] using hdollar, htight⟩

/-- What stands behind the first word. -/
lemma drop_length_takeWhile (cs : List Char) :
    cs.drop (cs.takeWhile isWordChar).length = cs.dropWhile isWordChar := by
  have h := congrArg (List.drop (cs.takeWhile isWordChar).length)
    (List.takeWhile_append_dropWhile (p := isWordChar) (l := cs))
  rw [List.drop_left] at h
  exact h.symm

/-- What stands behind the first word is as tight. -/
lemma isTight_drop (h : isTight cs) : isTight (cs.drop (cs.takeWhile isWordChar).length) := by
  rw [drop_length_takeWhile]
  induction cs with
  | nil => rfl
  | cons d ds ih =>
    rw [List.dropWhile_cons]
    split
    · next hword => exact ih (isTight_cons (ne_quote_of_isWordChar hword) h).2.2
    · exact h

/-- A word ends in a squeezed text where it ended. -/
lemma takeWhile_squeezed (hsep : separates isWordChar cs) (h : isTight cs) :
    (squeezed cs).takeWhile isWordChar = (cs.takeWhile isWordChar).map Char.toLower := by
  induction cs with
  | nil => rfl
  | cons d ds ih =>
    cases hblank : isBlank d with
    | true =>
      have hword : isWordChar d = false := by
        cases hword : isWordChar d with
        | false => rfl
        | true => simp [isBlank_of_isWordChar hword] at hblank
      have hhead : (squeezed (d :: ds)).head?.any isWordChar = false := by
        simpa [separates, hblank] using hsep
      rw [List.takeWhile_cons_of_neg (by simp [hword])]
      cases hds : squeezed (d :: ds) with
      | nil => rfl
      | cons e es =>
        rw [hds] at hhead
        rw [List.takeWhile_cons_of_neg (by simpa using hhead)]
        rfl
    | false =>
      rw [squeezed_cons hblank, List.takeWhile_cons, List.takeWhile_cons, isWordChar_toLower]
      cases hword : isWordChar d with
      | false => rfl
      | true =>
        obtain ⟨hnext, -, htight⟩ := isTight_cons (ne_quote_of_isWordChar hword) h
        simpa using ih (hnext hword) htight

/-- What is behind the first word is behind it in a squeezed text. -/
lemma drop_squeezed (cs : List Char) :
    (squeezed cs).drop (cs.takeWhile isWordChar).length =
      squeezed (cs.drop (cs.takeWhile isWordChar).length) := by
  have hword := squeezed_word fun c (hc : c ∈ cs.takeWhile isWordChar) =>
    List.mem_takeWhile_imp hc
  have hsplit := squeezed_append (cs.takeWhile isWordChar) (cs.dropWhile isWordChar)
  rw [List.takeWhile_append_dropWhile, hword] at hsplit
  rw [drop_length_takeWhile, hsplit]
  exact List.drop_left' (List.length_map _)

/-! ### One token -/

/-- A hexadecimal digit is a character of words. -/
lemma isWordChar_of_isHexDigit (h : isHexDigit c) : isWordChar c := by
  refine isWordChar_of_isAlphanum ?_
  unfold isHexDigit digit? digitValue? at h
  unfold Char.isAlphanum
  cases hdigit : c.isDigit <;> cases halpha : c.isAlpha <;> simp_all

/-- What is behind a dollar sign is the same token in a squeezed text. -/
lemma scanDollar_squeezed (hsep : separates isHexDigit cs) (h : isTight cs) :
    (scanDollar column' (squeezed cs)).toOption = (scanDollar column cs).toOption := by
  cases cs with
  | nil => rfl
  | cons d ds =>
    cases hblank : isBlank d with
    | true =>
      have hhead : (squeezed (d :: ds)).head?.any isHexDigit = false := by
        simpa [separates, hblank] using hsep
      have hhex : isHexDigit d = false := by
        cases hhex : isHexDigit d with
        | false => rfl
        | true => simp [isBlank_of_isWordChar (isWordChar_of_isHexDigit hhex)] at hblank
      cases hds : squeezed (d :: ds) with
      | nil => simp [scanDollar, hhex]
      | cons e es =>
        rw [hds] at hhead
        simp_all [scanDollar]
    | false =>
      have hword := @takeWhile_squeezed (d :: ds) (by simp [separates, hblank]) h
      rw [squeezed_cons hblank] at hword ⊢
      simp only [scanDollar, isHexDigit_toLower, hword, hexNumeral?_toLower, List.length_map]
      split
      · split <;> rfl
      · rfl

/-- What is behind a quote is the same token in a squeezed text. -/
lemma scanQuoted_squeezed {q : Char} (hq : q.isAlpha = false) (h : isTightFrom 2 cs) :
    (scanQuoted column' q (squeezed cs)).toOption = (scanQuoted column q cs).toOption := by
  rcases cs with _ | ⟨d, _ | ⟨close, cs⟩⟩
  · rfl
  · have hd : isBlank d = false := by
      simp only [isTightFrom, Bool.and_eq_true, Bool.not_eq_true'] at h
      exact h.1.1
    rw [squeezed_cons hd]
    rfl
  · simp only [isTightFrom, Bool.and_eq_true, Bool.not_eq_true', decide_eq_true_eq,
      Bool.or_eq_true] at h
    obtain ⟨⟨hd, hlower⟩, ⟨hclose, -⟩, -⟩ := h
    replace hlower : d.toLower = d := by simpa using hlower
    rw [squeezed_cons hd, squeezed_cons hclose, hlower]
    simp only [scanQuoted, Text.toLower_eq_iff hq]
    split <;> rfl

/-- **A token is the same in a squeezed text.** -/
theorem scan_squeezed (column : Nat) (h : isTight (c :: cs)) :
    (scan column' c.toLower (squeezed cs)).toOption = (scan column c cs).toOption := by
  have hdollar := Text.toLower_eq_iff (c := c) (d := '$') (by decide)
  have hdouble := Text.toLower_eq_iff (c := c) (d := '\x22') (by decide)
  have hsingle := Text.toLower_eq_iff (c := c) (d := '\x27') (by decide)
  have hword (hc : isWordChar c) :
      (squeezed cs).takeWhile isWordChar = (cs.takeWhile isWordChar).map Char.toLower :=
    have htight := isTight_cons (ne_quote_of_isWordChar hc) h
    takeWhile_squeezed (htight.1 hc) htight.2.2
  simp only [scan, isDigit_toLower, hdollar, hdouble, hsingle, isWordChar_toLower]
  split
  · next hdigit =>
    rw [hword (by simp [isWordChar, Char.isAlphanum, hdigit]), ← List.map_cons, numeral?_toLower,
      List.length_map]
    split <;> rfl
  · split
    · next heq =>
      obtain ⟨-, hsep, htight⟩ := isTight_cons (by rw [heq]; decide) h
      exact scanDollar_squeezed (hsep heq) htight
    · split
      · next hquote =>
        have hinside : isTightFrom 2 cs := by simpa [isTight, isTightFrom, hquote] using h
        rw [Bool.or_eq_true, decide_eq_true_eq, decide_eq_true_eq] at hquote
        have hletter : c.isAlpha = false := by rcases hquote with rfl | rfl <;> decide
        rw [Text.toLower_of_isAlpha_eq_false hletter]
        exact scanQuoted_squeezed hletter hinside
      · split
        · next hc =>
          rw [hword hc, ← List.map_cons, wordLexeme_toLower, List.length_map]
        · rw [Text.apply_toLower Punct.ofChar? (by decide +kernel)]
          split <;> rfl

/-- What is behind a token is behind it in a squeezed text, and is as tight. -/
lemma behind_scan_squeezed (h : isTight (c :: cs))
    (hscan : scan column c cs = .ok (lexeme, taken)) :
    (squeezed cs).drop taken = squeezed (cs.drop taken) ∧ isTight (cs.drop taken) := by
  rcases scan_eq_ok hscan with ⟨hword, rfl, -⟩ | ⟨rfl, hdollar⟩ | ⟨hquote, hquoted⟩ |
    ⟨-, hquote, rfl, -⟩
  · have htight := (isTight_cons (ne_quote_of_isWordChar hword) h).2.2
    exact ⟨drop_squeezed cs, isTight_drop htight⟩
  · have htight := (isTight_cons (by decide) h).2.2
    rcases scanDollar_eq_ok hdollar with ⟨-, rfl⟩ | ⟨-, rfl⟩
    · exact ⟨rfl, htight⟩
    · exact ⟨drop_squeezed cs, isTight_drop htight⟩
  · have hinside : isTightFrom 2 cs := by simpa [isTight, isTightFrom, hquote] using h
    obtain ⟨-, rfl, d, ds, rfl⟩ := scanQuoted_eq_ok hquoted
    simp only [isTightFrom, Bool.and_eq_true, Bool.not_eq_true'] at hinside
    obtain ⟨⟨hd, -⟩, ⟨hclose, -⟩, htight⟩ := hinside
    rw [squeezed_cons hd, squeezed_cons hclose]
    exact ⟨rfl, htight⟩
  · exact ⟨rfl, (isTight_cons hquote.symm h).2.2⟩

/-! ### All tokens -/

/-- The lexemes of the characters from a column on, if they are tokens. -/
def lexemesFrom (column : Nat) (cs : List Char) : Option (List Lexeme) :=
  (tokensFrom column cs).toOption.map (·.map Token.lexeme)

lemma lexemesFrom_of_isBlank (h : isBlank c = true) :
    lexemesFrom column (c :: cs) = lexemesFrom (column + 1) cs := by
  rw [lexemesFrom, lexemesFrom, tokensFrom_of_isBlank h]

/-- The lexemes of a text are its first one, and those of the rest. -/
lemma lexemesFrom_cons (h : isBlank c = false) :
    lexemesFrom column (c :: cs) = (scan column c cs).toOption.bind fun first =>
      (lexemesFrom (column + 1 + first.2) (cs.drop first.2)).map (first.1 :: ·) := by
  rw [lexemesFrom, tokensFrom, if_neg (by simp [h])]
  cases scan column c cs with
  | error fault => rfl
  | ok first =>
    obtain ⟨lexeme, taken⟩ := first
    simp only [lexemesFrom, Except.toOption, Option.bind_some]
    cases tokensFrom (column + 1 + taken) (cs.drop taken) <;> rfl

/-- **The tokens of a tight text are those of the squeezed text**, but for their columns; neither
has any if one has a fault.

**Proof sketch.** Induction on the number of characters.  Each token is the same, and what is behind
it is as tight. -/
theorem lexemesFrom_squeezed (h : isTight cs) :
    lexemesFrom column' (squeezed cs) = lexemesFrom column cs := by
  induction hlength : cs.length using Nat.strong_induction_on
    generalizing cs column column' with
  | h n ih =>
    subst hlength
    cases cs with
    | nil => rw [squeezed_nil, lexemesFrom, lexemesFrom, tokensFrom, tokensFrom]
    | cons c cs =>
      cases hblank : isBlank c with
      | true =>
        have hquote : c ≠ '\x22' ∧ c ≠ '\x27' := by
          constructor <;> rintro rfl <;> revert hblank <;> decide
        rw [squeezed_of_isBlank hblank, lexemesFrom_of_isBlank hblank]
        exact ih _ (by simp) (isTight_cons hquote h).2.2 rfl
      | false =>
        rw [squeezed_cons hblank, lexemesFrom_cons (by simpa using hblank), lexemesFrom_cons hblank,
          scan_squeezed column h]
        cases hscan : scan column c cs with
        | error fault => rfl
        | ok first =>
          obtain ⟨hdrop, htight⟩ := behind_scan_squeezed h hscan
          simp only [Except.toOption, Option.bind_some, hdrop]
          rw [ih _ (by simp only [List.length_drop, List.length_cons]; omega) htight rfl]

/-! ### Values -/

/-- The value of a text depends on its lexemes alone. -/
lemma evaluate_eq_ok_iff_lexemesFrom {scope : Scope} {text : String} {value : Int64} :
    evaluate scope text = .ok value ↔
      ∃ t : Tree 4, lexemesFrom 0 text.toList = some t.lexemes ∧ t.value scope = some value ∧
        t.depth ≤ maxDepth := by
  rw [evaluate, bind_eq_ok_iff]
  simp only [evaluateTokens_eq_ok_iff, derives_iff_exists_tree, lexemesFrom, tokenize]
  cases tokensFrom 0 text.toList <;> simp [Except.toOption, eq_comm]

/-- **A tight text has the same value when it is squeezed**, or none either. -/
theorem evaluate_squeezed {scope : Scope} {text : String} (h : isTight text.toList) :
    (evaluate scope (String.ofList (squeezed text.toList))).toOption =
      (evaluate scope text).toOption := by
  refine toOption_eq_iff.2 fun value => ?_
  rw [evaluate_eq_ok_iff_lexemesFrom, evaluate_eq_ok_iff_lexemesFrom, String.toList_ofList,
    lexemesFrom_squeezed h]

/-- A tight text is the same displacement when it is squeezed, or none either. -/
theorem evaluateDisplacement_squeezed {scope : Scope} {text : String} (h : isTight text.toList) :
    (evaluateDisplacement scope (String.ofList (squeezed text.toList))).toOption =
      (evaluateDisplacement scope text).toOption := by
  rw [evaluateDisplacement, evaluateDisplacement, bind_assoc, bind_assoc]
  exact toOption_bind_congr (evaluate_squeezed h) fun _ _ => rfl

end Z80.Expr
