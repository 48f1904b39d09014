import Z80.Proofs.Expr.Tokens
import Z80.Proofs.Source.FoldedLine

/-!
# Expressions in lower case

The letters of an expression that stand outside its literals may be put in lower case without a
change to its value, if it has one.

## Main definitions

* `Z80.Expr.QuotesItself` — texts with a quote between two quotes of its kind.
* `Z80.Expr.SameExpr` — expressions without such quotes that differ in letters outside literals.

## Main results

* `Z80.Expr.tokensFrom_foldFrom` — a folded text has the same tokens, if these hold no stray number.
* `Z80.Expr.SameExpr.evaluate_congr`, `Z80.Expr.SameExpr.isPositionDependent_congr` — such
  expressions have the same value, and depend on their place alike.

## Design

A line and the lexer do not agree on literals everywhere.  The apostrophe behind `af` starts a
literal for the lexer alone, but the number that it stands for is then right behind a name, where
the grammar has no place for it.  Three equal quotes are a literal for the lexer, and an empty
literal and the start of another one for a line; such texts are left out here.
-/

namespace Z80.Expr

open Source (Reading fold foldFrom foldText)
open Text (isBlank)

/-- Whether a quote stands between two quotes of its kind. -/
def QuotesItself (cs : List Char) : Prop :=
  ['\x22', '\x22', '\x22'] <:+: cs ∨ ['\x27', '\x27', '\x27'] <:+: cs
deriving Decidable

variable {r : Reading} {c : Char} {cs ds : List Char} {column : Nat}

/-! ### Quotes -/

/-- Quotes stand where they stand in lower case. -/
lemma infix_map_toLower {q : Char} (hq : q.isAlpha = false) :
    [q, q, q] <:+: cs.map Char.toLower ↔ [q, q, q] <:+: cs := by
  have hlower : [q, q, q].map Char.toLower = [q, q, q] := by
    simp [Text.toLower_of_isAlpha_eq_false hq]
  constructor
  · rintro ⟨front, behind, heq⟩
    obtain ⟨left, behind', rfl, hleft, -⟩ := List.map_eq_append_iff.1 heq.symm
    obtain ⟨front', quotes, rfl, -, hquotes⟩ := List.map_eq_append_iff.1 hleft
    have hsame : quotes = [q, q, q] := by
      have heach : ∀ d ∈ quotes, d = q := by
        intro d hd
        have hmem : d.toLower ∈ [q, q, q] := hquotes ▸ List.mem_map_of_mem hd
        have hdq : d.toLower = q := by simpa using hmem
        exact (Text.toLower_eq_iff hq).1 hdq
      have hlength : quotes.length = 3 := by simpa using congrArg List.length hquotes
      exact List.eq_replicate_iff.2 ⟨hlength, heach⟩
    exact ⟨front', behind', by rw [hsame]⟩
  · intro h
    exact hlower ▸ h.map Char.toLower

/-- Texts that are the same in lower case quote themselves alike. -/
lemma quotesItself_congr (h : cs.map Char.toLower = ds.map Char.toLower) :
    QuotesItself cs ↔ QuotesItself ds := by
  have hquote {q : Char} (hq : q.isAlpha = false) : [q, q, q] <:+: cs ↔ [q, q, q] <:+: ds := by
    rw [← infix_map_toLower hq, h, infix_map_toLower hq]
  exact or_congr (hquote (by decide)) (hquote (by decide))

/-- A part of a text quotes nothing that the text does not. -/
lemma QuotesItself.mono (h : QuotesItself ds) (hpart : ds <:+: cs) : QuotesItself cs :=
  h.imp (·.trans hpart) (·.trans hpart)

/-! ### One token -/

/-- Numerals that are the same in lower case are worth the same. -/
lemma numeral?_congr (h : cs.map Char.toLower = ds.map Char.toLower) :
    numeral? cs = numeral? ds := by
  rw [← numeral?_toLower, h, numeral?_toLower]

/-- Hexadecimal numerals that are the same in lower case are worth the same. -/
lemma hexNumeral?_congr (h : cs.map Char.toLower = ds.map Char.toLower) :
    hexNumeral? cs = hexNumeral? ds := by
  rw [← hexNumeral?_toLower, h, hexNumeral?_toLower]

/-- The word at the start of a folded text. -/
lemma takeWhile_isWordChar_foldFrom (r : Reading) (cs : List Char) :
    (foldFrom r cs).takeWhile isWordChar = foldFrom r (cs.takeWhile isWordChar) :=
  Source.takeWhile_foldFrom isWordChar_toLower r cs

/-- What is behind a dollar sign is the same token when it is folded. -/
lemma scanDollar_foldFrom (r : Reading) (cs : List Char) :
    (scanDollar column (foldFrom r cs)).toOption = (scanDollar column cs).toOption := by
  cases cs with
  | nil => rfl
  | cons c cs =>
    have hword := takeWhile_isWordChar_foldFrom r (c :: cs)
    have hvalue := hexNumeral?_congr
      (Source.map_toLower_foldFrom r ((c :: cs).takeWhile isWordChar))
    simp only [foldFrom] at hword ⊢
    simp only [scanDollar, hword, hvalue, Source.length_foldFrom, r.apply_fold isHexDigit_toLower]
    split
    · split <;> rfl
    · rfl

/-- What is behind a quote is the same token when it is folded. -/
lemma scanQuoted_foldFrom {q : Char} (hq : q.isAlpha = false) (hr : r.quote = some q)
    (cs : List Char) :
    (scanQuoted column q (foldFrom r cs)).toOption = (scanQuoted column q cs).toOption := by
  rcases cs with _ | ⟨c, _ | ⟨close, cs⟩⟩
  · rfl
  · rfl
  · simp only [foldFrom, scanQuoted, Reading.fold_of_quote hr, Reading.fold_eq_iff _ hq]
    split <;> rfl

/-- **A token is the same in a folded text**, except for the apostrophe behind `af`. -/
theorem scan_foldFrom (hr : r.quote = none) (haf : c = '\x27' → r.isAfterAf = false) :
    (scan column (r.fold c) (foldFrom (r.next c) cs)).toOption = (scan column c cs).toOption := by
  have hdollar := r.fold_eq_iff (c := c) (d := '$') (by decide)
  have hdouble := r.fold_eq_iff (c := c) (d := '\x22') (by decide)
  have hsingle := r.fold_eq_iff (c := c) (d := '\x27') (by decide)
  have hlower := Source.map_toLower_foldFrom r (c :: cs.takeWhile isWordChar)
  rw [foldFrom] at hlower
  simp only [scan, r.apply_fold isDigit_toLower, hdollar, hdouble, hsingle,
    r.apply_fold isWordChar_toLower, takeWhile_isWordChar_foldFrom, Source.length_foldFrom]
  split
  · rw [numeral?_congr hlower]
    split <;> rfl
  · split
    · exact scanDollar_foldFrom _ _
    · split
      · next hquote =>
        have hopens : r.opens c = true := by
          rw [Bool.or_eq_true, decide_eq_true_eq, decide_eq_true_eq] at hquote
          rcases hquote with rfl | rfl
          · simp [Reading.opens, haf]
          · simp [Reading.opens]
        have hinside : (r.next c).quote = some c := by simp [Reading.next, hr, hopens]
        have hletter : c.isAlpha = false := by
          rw [Bool.or_eq_true, decide_eq_true_eq, decide_eq_true_eq] at hquote
          rcases hquote with rfl | rfl <;> decide
        rw [r.fold_eq_self hletter]
        exact scanQuoted_foldFrom hletter hinside cs
      · split
        · rw [← wordLexeme_toLower, hlower, wordLexeme_toLower]
        · next hword =>
          have hletter : c.isAlpha = false := by
            rw [Bool.not_eq_true] at hword
            cases hc : c.isAlpha with
            | false => rfl
            | true => simp [isWordChar, Char.isAlphanum, hc] at hword
          rw [r.fold_eq_self hletter]

/-! ### Behind one token -/

section Behind

variable {lexeme : Lexeme} {taken : Nat}

/-- The lexer reads a number behind each apostrophe. -/
lemma isNumber_of_scan_apostrophe (h : scan column '\x27' cs = .ok (lexeme, taken)) :
    lexeme.isNumber = true := by
  have hquoted : scanQuoted column '\x27' cs = .ok (lexeme, taken) := by simpa [scan] using h
  exact (scanQuoted_eq_ok hquoted).1

/-- A number is a number or a name. -/
lemma isWord_of_isNumber (h : lexeme.isNumber = true) : lexeme.isWord = true := by
  cases lexeme <;> simp_all [Lexeme.isNumber, Lexeme.isWord]

/-- Behind a word no literal is open. -/
lemma quote_behind_word (hr : r.quote = none) (cs : List Char) :
    (r.behind (cs.takeWhile isWordChar)).quote = none :=
  Source.quote_behind hr fun d hd =>
    ne_quote_of_isWordChar (List.all_eq_true.1 List.all_takeWhile d hd)

/-- The apostrophe that starts no literal is behind an `f`. -/
lemma toLower_of_isAfterAf_next (h : (r.next c).isAfterAf = true) : c.toLower = 'f' := by
  simp only [Reading.isAfterAf, Reading.next, Option.map_some, Bool.and_eq_true,
    decide_eq_true_eq, Option.some.injEq] at h
  exact h.2

/-- No operator that is spelled as a word ends in an `f`. -/
lemma isWord_wordLexeme_of_isAfterAf (h : (r.behind (c :: cs)).isAfterAf = true) :
    (wordLexeme (c :: cs)).isWord = true := by
  obtain ⟨front, last, heq⟩ : ∃ front last, c :: cs = front ++ [last] :=
    ⟨_, _, (List.dropLast_concat_getLast (List.cons_ne_nil c cs)).symm⟩
  rw [heq] at h ⊢
  have hlast : last.toLower = 'f' := by
    rw [Reading.behind, List.foldl_append] at h
    exact toLower_of_isAfterAf_next h
  have hends (spelling : String)
      (hspelling : String.ofList ((front ++ [last]).map Char.toLower) = spelling) :
      spelling.toList.getLast? = some 'f' := by
    rw [← hspelling, String.toList_ofList, List.map_append, List.map_singleton, hlast,
      List.getLast?_concat]
  rw [wordLexeme]
  split
  · next hand => exact absurd (hends _ hand) (by decide)
  · split
    · next hor => exact absurd (hends _ hor) (by decide)
    · rfl

/-- **Behind a token no literal is open**, and an apostrophe that starts none is behind a name or
a number. -/
theorem behind_scan (hr : r.quote = none) (haf : c = '\x27' → r.isAfterAf = false)
    (hself : ¬QuotesItself (c :: cs)) (h : scan column c cs = .ok (lexeme, taken)) :
    (r.behind (c :: cs.take taken)).quote = none ∧
      ((r.behind (c :: cs.take taken)).isAfterAf = true → lexeme.isWord = true) := by
  have htake : cs.take (cs.takeWhile isWordChar).length = cs.takeWhile isWordChar :=
    (List.prefix_iff_eq_take.1 (List.takeWhile_prefix _)).symm
  rcases scan_eq_ok h with ⟨hword, rfl, hlexeme⟩ | ⟨rfl, hdollar⟩ | ⟨hquote, hquoted⟩ |
    ⟨hword, hquote, rfl, -⟩
  · obtain ⟨hdouble, hsingle⟩ := ne_quote_of_isWordChar hword
    rw [htake]
    refine ⟨quote_behind_word (Source.quote_next hr hdouble hsingle) cs, fun hafter => ?_⟩
    rcases hlexeme with hnumber | ⟨-, rfl⟩
    · exact isWord_of_isNumber hnumber
    · exact isWord_wordLexeme_of_isAfterAf hafter
  · have hnext : (r.next '$').quote = none := Source.quote_next hr (by decide) (by decide)
    rcases scanDollar_eq_ok hdollar with ⟨rfl, rfl⟩ | ⟨hnumber, rfl⟩
    · exact ⟨hnext, fun hafter => absurd (toLower_of_isAfterAf_next hafter) (by decide)⟩
    · rw [htake]
      exact ⟨quote_behind_word hnext cs, fun _ => isWord_of_isNumber hnumber⟩
  · obtain ⟨hnumber, rfl, d, ds, rfl⟩ := scanQuoted_eq_ok hquoted
    have hopens : r.opens c = true := by
      rcases hquote with rfl | rfl
      · simp [Reading.opens, haf]
      · simp [Reading.opens]
    -- a quote between the two would end the literal
    have hne : d ≠ c := by
      rintro rfl
      have hthree : [d, d, d] <:+: d :: d :: d :: ds := ⟨[], ds, rfl⟩
      rcases hquote with rfl | rfl
      · exact hself (.inr hthree)
      · exact hself (.inl hthree)
    refine ⟨?_, fun _ => isWord_of_isNumber hnumber⟩
    simp [Reading.behind, Reading.next, hr, hopens, hne]
  · refine ⟨Source.quote_next hr hquote.2 hquote.1, fun hafter => ?_⟩
    have hletter : isWordChar c.toLower = true := by
      rw [toLower_of_isAfterAf_next (c := c) hafter]
      decide
    rw [isWordChar_toLower, hword] at hletter
    cases hletter

end Behind

/-! ### All tokens -/

/-- **A folded text has the same tokens, if these hold no stray number.**

**Proof sketch.** Induction on the number of characters.  Tokens do not start inside literals.  An
apostrophe that starts no literal is behind a name or a number; there the lexer would read a stray
number. -/
theorem tokensFrom_foldFrom {afterWord : Bool} {tokens : List Token} (hr : r.quote = none)
    (haf : r.isAfterAf = true → afterWord = true) (hself : ¬QuotesItself cs)
    (hstray : hasStrayNumber afterWord tokens = false) :
    tokensFrom column (foldFrom r cs) = .ok tokens ↔ tokensFrom column cs = .ok tokens := by
  induction hlength : cs.length using Nat.strong_induction_on
    generalizing r cs column tokens afterWord with
  | h n ih =>
    cases cs with
    | nil => rfl
    | cons c cs =>
      subst hlength
      have hblank' := Source.isBlank_fold r c
      rw [foldFrom]
      cases hblank : isBlank c with
      | true =>
        rw [tokensFrom_of_isBlank (hblank'.trans hblank), tokensFrom_of_isBlank hblank]
        have hnext := Source.next_blank hr hblank
        refine ih _ (by simp) hnext.quote (fun hafter => ?_)
          (fun h => hself (h.mono (List.suffix_cons c cs).isInfix)) hstray rfl
        rw [hnext.isAfterAf] at hafter
        cases hafter
      | false =>
        rw [tokensFrom_cons_eq_ok_iff (hblank'.trans hblank), tokensFrom_cons_eq_ok_iff hblank]
        refine exists_congr fun lexeme => exists_congr fun taken => exists_congr fun more => ?_
        by_cases hnone : c = '\x27' ∧ r.isAfterAf = true
        · obtain ⟨rfl, hafter⟩ := hnone
          have hnumber (h : lexeme.isNumber = true) : tokens ≠ ⟨lexeme, column⟩ :: more := by
            rintro rfl
            simp [hasStrayNumber, haf hafter, h] at hstray
          rw [r.fold_apostrophe]
          refine iff_of_false ?_ ?_
          · rintro ⟨hscan, -, htokens⟩
            exact hnumber (isNumber_of_scan_apostrophe hscan) htokens
          · rintro ⟨hscan, -, htokens⟩
            exact hnumber (isNumber_of_scan_apostrophe hscan) htokens
        · have haf' : c = '\x27' → r.isAfterAf = false := by simpa using hnone
          rw [toOption_eq_iff.1 (scan_foldFrom hr haf')]
          refine and_congr_right fun hscan => and_congr_left fun htokens => ?_
          obtain ⟨hquote, hword⟩ := behind_scan hr haf' hself hscan
          have hdrop : cs.drop taken <:+ c :: cs :=
            (List.drop_suffix taken cs).trans (List.suffix_cons c cs)
          rw [htokens, hasStrayNumber, Bool.or_eq_false_iff] at hstray
          rw [Source.drop_foldFrom]
          exact ih _ (by simp only [List.length_drop, List.length_cons]; omega) hquote hword
            (fun h => hself (h.mono hdrop.isInfix)) hstray.2 rfl

/-! ### Values -/

section Value

variable {scope : Scope} {text text' : String} {value : Int64}

/-- An expression that has a value has the same tokens when it is folded. -/
lemma tokenize_foldText {tokens : List Token} (hself : ¬QuotesItself text.toList)
    (hvalue : evaluateTokens scope tokens = .ok value) :
    tokenize (foldText text) = .ok tokens ↔ tokenize text = .ok tokens := by
  rw [tokenize, tokenize, foldText, String.toList_ofList]
  exact tokensFrom_foldFrom rfl (fun h => by cases h) hself
    (hasStrayNumber_of_evaluateTokens hvalue)

/-- A folded expression has the same value, or none either. -/
lemma evaluate_foldText (hself : ¬QuotesItself text.toList) :
    (evaluate scope (foldText text)).toOption = (evaluate scope text).toOption := by
  refine toOption_eq_iff.2 fun value => ?_
  rw [evaluate, evaluate, bind_eq_ok_iff, bind_eq_ok_iff]
  exact exists_congr fun tokens => and_congr_left (tokenize_foldText hself)

/-- A folded expression that has a value depends on its place alike. -/
lemma isPositionDependent_foldText (hself : ¬QuotesItself text.toList)
    (hvalue : evaluate scope text = .ok value) :
    isPositionDependent (foldText text) = isPositionDependent text := by
  obtain ⟨tokens, htokens, hvalue⟩ := bind_eq_ok_iff.1 hvalue
  rw [isPositionDependent, isPositionDependent, htokens, (tokenize_foldText hself hvalue).2 htokens]

/-- Two expressions that differ in letters outside literals, in which no quote stands between two
quotes of its kind. -/
structure SameExpr (text text' : String) : Prop where
  clear : ¬QuotesItself text.toList
  fold_eq : foldText text = foldText text'

namespace SameExpr

variable (h : SameExpr text text')

include h

lemma symm : SameExpr text' text where
  clear := by
    have hlower := Source.map_toLower_of_fold_eq (Source.foldText_eq_iff.1 h.fold_eq)
    exact fun hself => h.clear ((quotesItself_congr hlower).2 hself)
  fold_eq := h.fold_eq.symm

/-- **Expressions that differ in letters outside literals have the same value, or both none.** -/
theorem evaluate_congr : (evaluate scope text).toOption = (evaluate scope text').toOption := by
  rw [← evaluate_foldText h.clear, h.fold_eq, evaluate_foldText h.symm.clear]

/-- **Expressions that differ in letters outside literals depend on their place alike**, if they
have a value. -/
theorem isPositionDependent_congr (hvalue : evaluate scope text = .ok value) :
    isPositionDependent text = isPositionDependent text' := by
  have hvalue' := (toOption_eq_iff.1 h.evaluate_congr value).1 hvalue
  rw [← isPositionDependent_foldText h.clear hvalue, h.fold_eq,
    isPositionDependent_foldText h.symm.clear hvalue']

lemma evaluateByte_congr :
    (evaluateByte scope text).toOption = (evaluateByte scope text').toOption := by
  rw [evaluateByte, evaluateByte, bind_assoc, bind_assoc]
  exact toOption_bind_congr h.evaluate_congr fun _ _ => rfl

lemma evaluateWord_congr :
    (evaluateWord scope text).toOption = (evaluateWord scope text').toOption := by
  rw [evaluateWord, evaluateWord, bind_assoc, bind_assoc]
  exact toOption_bind_congr h.evaluate_congr fun _ _ => rfl

end SameExpr

end Value

end Z80.Expr
