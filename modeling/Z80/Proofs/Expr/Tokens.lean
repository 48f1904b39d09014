import Mathlib.Data.List.TakeWhile
import Z80.Proofs.Expr.Grammar
import Z80.Proofs.Expr.Simple
import Z80.Proofs.Text.Case

/-!
# Where tokens come from

What a token says of the characters that it is read from, and what all tokens of a text have in
common.

## Main results

* `Z80.Expr.scan_eq_ok` — the characters of one token.
* `Z80.Expr.tokensFrom_cons_eq_ok_iff` — the tokens of a text, one after the other.
* `Z80.Expr.isName_of_mem_tokensFrom` — the names in tokens are in lower case.
-/

namespace Z80.Expr

open Text (isBlank)

variable {c : Char} {cs : List Char} {column taken : Nat} {lexeme : Lexeme} {tokens : List Token}

/-! ### One token -/

/-- Characters of words are no quotes. -/
lemma ne_quote_of_isWordChar (h : isWordChar c = true) : c ≠ '\x22' ∧ c ≠ '\x27' := by
  constructor
  all_goals
    rintro rfl
    exact absurd h (by decide)

/-- A dollar sign alone is a token, or it starts a number with the word behind it. -/
lemma scanDollar_eq_ok (h : scanDollar column cs = .ok (lexeme, taken)) :
    lexeme = .here ∧ taken = 0 ∨
      lexeme.isNumber = true ∧ taken = (cs.takeWhile isWordChar).length := by
  cases cs with
  | nil =>
    obtain ⟨rfl, rfl⟩ := Prod.mk.inj (Except.ok.inj h)
    exact .inl ⟨rfl, rfl⟩
  | cons d ds =>
    simp only [scanDollar] at h
    split at h
    · split at h
      · obtain ⟨rfl, rfl⟩ := Prod.mk.inj (Except.ok.inj h)
        exact .inr ⟨rfl, rfl⟩
      · cases h
    · obtain ⟨rfl, rfl⟩ := Prod.mk.inj (Except.ok.inj h)
      exact .inl ⟨rfl, rfl⟩

/-- A quote starts a number with a character and another quote. -/
lemma scanQuoted_eq_ok {q : Char} (h : scanQuoted column q cs = .ok (lexeme, taken)) :
    lexeme.isNumber = true ∧ taken = 2 ∧ ∃ d ds, cs = d :: q :: ds := by
  unfold scanQuoted at h
  split at h
  · next d close ds =>
    split at h
    · next hclose =>
      obtain ⟨rfl, rfl⟩ := Prod.mk.inj (Except.ok.inj h)
      rw [Bool.and_eq_true, decide_eq_true_eq] at hclose
      exact ⟨rfl, rfl, d, ds, by rw [hclose.1]⟩
    · cases h
  · cases h

/-- A token is a word, starts with a dollar sign or a quote, or is a punctuation character. -/
lemma scan_eq_ok (h : scan column c cs = .ok (lexeme, taken)) :
    (isWordChar c = true ∧ taken = (cs.takeWhile isWordChar).length ∧
      (lexeme.isNumber = true ∨
        c.isDigit = false ∧ lexeme = wordLexeme (c :: cs.takeWhile isWordChar))) ∨
    (c = '$' ∧ scanDollar column cs = .ok (lexeme, taken)) ∨
    ((c = '\x27' ∨ c = '\x22') ∧ scanQuoted column c cs = .ok (lexeme, taken)) ∨
    (isWordChar c = false ∧ (c ≠ '\x27' ∧ c ≠ '\x22') ∧ taken = 0 ∧
      ∃ p, lexeme = .punct p) := by
  simp only [scan] at h
  split at h
  · next hdigit =>
    have hword : isWordChar c = true := by simp [isWordChar, Char.isAlphanum, hdigit]
    split at h
    · obtain ⟨rfl, rfl⟩ := Prod.mk.inj (Except.ok.inj h)
      exact .inl ⟨hword, rfl, .inl rfl⟩
    · cases h
  · next hdigit =>
    split at h
    · next hdollar => exact .inr (.inl ⟨hdollar, h⟩)
    · split at h
      · next hquote => exact .inr (.inr (.inl ⟨by simpa using hquote, h⟩))
      · next hquote =>
        split at h
        · next hword =>
          obtain ⟨rfl, rfl⟩ := Prod.mk.inj (Except.ok.inj h)
          exact .inl ⟨hword, rfl, .inr ⟨by simpa using hdigit, rfl⟩⟩
        · next hword =>
          split at h
          · obtain ⟨rfl, rfl⟩ := Prod.mk.inj (Except.ok.inj h)
            exact .inr (.inr (.inr ⟨by simpa using hword, by simpa using hquote, rfl, _, rfl⟩))
          · cases h

/-! ### All tokens -/

/-- Blanks are dropped. -/
lemma tokensFrom_of_isBlank (h : isBlank c = true) :
    tokensFrom column (c :: cs) = tokensFrom (column + 1) cs := by
  rw [tokensFrom, if_pos h]

/-- The tokens of a text are its first one, and those of the rest. -/
lemma tokensFrom_cons_eq_ok_iff (h : isBlank c = false) :
    tokensFrom column (c :: cs) = .ok tokens ↔
      ∃ lexeme taken more, scan column c cs = .ok (lexeme, taken) ∧
        tokensFrom (column + 1 + taken) (cs.drop taken) = .ok more ∧
        tokens = ⟨lexeme, column⟩ :: more := by
  rw [tokensFrom, if_neg (by simp [h])]
  constructor
  · intro htokens
    split at htokens
    · cases htokens
    · next lexeme taken hscan =>
      split at htokens
      · cases htokens
      · next more hmore =>
        exact ⟨lexeme, taken, more, hscan, hmore, (Except.ok.inj htokens).symm⟩
  · rintro ⟨lexeme, taken, more, hscan, hmore, rfl⟩
    rw [hscan]
    simp only [hmore]

/-! ### Names -/

/-- A word is a name if it is one in lower case. -/
lemma isName_map_toLower_iff : IsName (cs.map Char.toLower) ↔ IsIdentifier cs := by
  constructor
  · intro h
    refine ⟨?_, fun c hc => ?_, h.ne_and, h.ne_or⟩
    · simpa using h.head
    · simpa using h.isWordChar c.toLower (List.mem_map_of_mem hc)
  · intro h
    refine ⟨?_, fun c hc => ?_, Text.map_toLower_map_toLower cs, h.ne_and, h.ne_or⟩
    · simpa using h.head
    · obtain ⟨d, hd, rfl⟩ := List.mem_map.1 hc
      simpa using h.isWordChar d hd

/-- The lexeme of a word, if it is no operator, is a name in lower case. -/
lemma isName_of_wordLexeme {name : String} (hhead : ∃ c ∈ cs.head?, c.isDigit = false)
    (hword : ∀ c ∈ cs, isWordChar c) (h : wordLexeme cs = .name name) : IsName name.toList := by
  simp only [wordLexeme] at h
  split at h
  · cases h
  · next hand =>
    split at h
    · cases h
    · next hor =>
      obtain rfl := Lexeme.name.inj h
      rw [String.toList_ofList]
      refine isName_map_toLower_iff.2 ⟨hhead, hword, fun heq => hand ?_, fun heq => hor ?_⟩
      · rw [heq]
      · rw [heq]

/-- A name is read from the characters of a word. -/
lemma isName_of_scan {name : String} (h : scan column c cs = .ok (.name name, taken)) :
    IsName name.toList := by
  rcases scan_eq_ok h with ⟨hword, -, hnumber | ⟨hdigit, hlexeme⟩⟩ | ⟨-, hdollar⟩ | ⟨-, hquoted⟩ |
    ⟨-, -, -, p, hpunct⟩
  · cases hnumber
  · refine isName_of_wordLexeme ⟨c, rfl, hdigit⟩ (fun d hd => ?_) hlexeme.symm
    rcases List.mem_cons.1 hd with rfl | hd
    · exact hword
    · exact List.mem_takeWhile_imp hd
  · rcases scanDollar_eq_ok hdollar with ⟨hhere, -⟩ | ⟨hnumber, -⟩
    · cases hhere
    · cases hnumber
  · cases (scanQuoted_eq_ok hquoted).1
  · cases hpunct

/-- **The names in tokens are in lower case**, and neither numerals nor operators. -/
theorem isName_of_mem_tokensFrom {name : String} {place : Nat}
    (h : tokensFrom column cs = .ok tokens) (hmem : ⟨.name name, place⟩ ∈ tokens) :
    IsName name.toList := by
  induction hlength : cs.length using Nat.strong_induction_on generalizing cs column tokens with
  | h n ih =>
    subst hlength
    match cs with
    | [] =>
      rw [tokensFrom] at h
      obtain rfl := Except.ok.inj h
      cases hmem
    | c :: cs =>
      cases hblank : isBlank c with
      | true =>
        rw [tokensFrom_of_isBlank hblank] at h
        exact ih _ (by simp) h hmem rfl
      | false =>
        obtain ⟨lexeme, taken, more, hscan, hmore, rfl⟩ := (tokensFrom_cons_eq_ok_iff hblank).1 h
        rcases List.mem_cons.1 hmem with heq | hmem
        · obtain ⟨rfl, -⟩ := Token.mk.inj heq
          exact isName_of_scan hscan
        · exact ih _ (by simp only [List.length_drop, List.length_cons]; omega) hmore hmem rfl

end Z80.Expr
