import Z80.Proofs.Expr.Tokens

/-!
# Literals as expressions

In an expression one ASCII character between two quotes is a number.  Quotes around no character or
around several have no value.

## Main definitions

* `Z80.Expr.IsQuoted` — a text that starts and ends with the same quote.

## Main results

* `Z80.Expr.evaluateByte_of_isQuoted_singleton` — the value of a character.
* `Z80.Expr.evaluateByte_of_isQuoted` — other characters between quotes have no value.
-/

namespace Z80

open Text (isBlank)

namespace Expr

/-- Without the blanks around it, a text consists of some characters between two quotes of a
kind. -/
def IsQuoted (q : Char) (chars : List Char) (text : String) : Prop :=
  (q = '\x22' ∨ q = '\x27') ∧ Text.trim text.toList = q :: (chars ++ [q])

variable {q : Char} {chars cs before : List Char} {text : String} {column : Nat}

/-! ### Tokens -/

/-- Blanks in front of tokens are dropped. -/
lemma tokensFrom_append_of_isBlank (h : ∀ c ∈ before, isBlank c) :
    tokensFrom column (before ++ cs) = tokensFrom (column + before.length) cs := by
  induction before generalizing column with
  | nil => rfl
  | cons c before ih =>
    obtain ⟨hblank, hbefore⟩ := List.forall_mem_cons.1 h
    rw [List.cons_append, tokensFrom_of_isBlank hblank, ih hbefore, List.length_cons,
      Nat.add_assoc, Nat.add_comm 1]

/-- Blanks are no tokens. -/
lemma tokensFrom_eq_nil (h : ∀ c ∈ cs, isBlank c) : tokensFrom column cs = .ok [] := by
  have hdrop := @tokensFrom_append_of_isBlank [] cs column h
  rw [List.append_nil] at hdrop
  rw [hdrop, tokensFrom]

/-- A quote is not blank. -/
lemma isBlank_quote (h : q = '\x22' ∨ q = '\x27') : isBlank q = false := by
  rcases h with rfl | rfl <;> decide

/-- A token that starts with a quote is a character literal. -/
lemma scan_quote (h : q = '\x22' ∨ q = '\x27') : scan column q cs = scanQuoted column q cs := by
  rcases h with rfl | rfl <;> rfl

/-! ### Values -/

/-- The token of an ASCII character between quotes. -/
lemma tokenize_of_isQuoted_singleton {c : Char} (h : IsQuoted q [c] text) (hc : c.toNat < 128) :
    ∃ place, tokenize text = .ok [⟨.number (Int64.ofNat c.toNat), place⟩] := by
  obtain ⟨hquote, htrim⟩ := h
  obtain ⟨before, behind, hsplit, hbefore, hbehind⟩ := Text.exists_eq_append_trim text.toList
  refine ⟨0 + before.length, ?_⟩
  rw [tokenize, hsplit, htrim, tokensFrom_append_of_isBlank hbefore]
  refine (tokensFrom_cons_eq_ok_iff (isBlank_quote hquote)).2
    ⟨.number (Int64.ofNat c.toNat), 2, [], ?_, tokensFrom_eq_nil hbehind, rfl⟩
  rw [scan_quote hquote]
  simp [scanQuoted, hc]

/-- **An ASCII character between quotes is its code.** -/
theorem evaluateByte_of_isQuoted_singleton (scope : Scope) {c : Char} (h : IsQuoted q [c] text)
    (hc : c.toNat < 128) : evaluateByte scope text = .ok (UInt8.ofNat c.toNat) := by
  obtain ⟨place, htokens⟩ := tokenize_of_isQuoted_singleton h hc
  have hcode : (UInt8.ofNat c.toNat).toNat = c.toNat := by
    rw [UInt8.toNat_ofNat']
    exact Nat.mod_eq_of_lt (by omega)
  apply evaluateByte_eq_ok
  rw [hcode, evaluate, htokens]
  rfl

/-- **No character between quotes, or several, have no value**, as the second character behind the
quote is none that closes a literal. -/
theorem evaluateByte_of_isQuoted (scope : Scope) (h : IsQuoted q chars text) (hclosed : q ∉ chars)
    (hlength : chars.length ≠ 1) : ∃ e, evaluateByte scope text = .error e := by
  obtain ⟨hquote, htrim⟩ := h
  obtain ⟨before, behind, hsplit, hbefore, hbehind⟩ := Text.exists_eq_append_trim text.toList
  cases htokens : tokenize text with
  | error e => exact ⟨e, by rw [evaluateByte, evaluate, htokens]; rfl⟩
  | ok tokens =>
    rw [tokenize, hsplit, htrim, tokensFrom_append_of_isBlank hbefore] at htokens
    obtain ⟨lexeme, taken, more, hscan, -, -⟩ :=
      (tokensFrom_cons_eq_ok_iff (isBlank_quote hquote)).1 htokens
    change scan _ q (chars ++ [q] ++ behind) = _ at hscan
    rw [scan_quote hquote] at hscan
    obtain ⟨-, -, d, ds, hcs⟩ := scanQuoted_eq_ok hscan
    cases chars with
    | nil =>
      -- the quote that closes would be one of the blanks
      obtain ⟨-, rfl⟩ := List.cons.inj hcs
      have hblank := hbehind q List.mem_cons_self
      rw [isBlank_quote hquote] at hblank
      cases hblank
    | cons c chars =>
      cases chars with
      | nil => exact absurd rfl hlength
      | cons c' rest =>
        obtain ⟨-, hcs⟩ := List.cons.inj hcs
        obtain ⟨rfl, -⟩ := List.cons.inj hcs
        exact absurd (List.mem_cons_of_mem _ List.mem_cons_self) hclosed

end Expr

end Z80
