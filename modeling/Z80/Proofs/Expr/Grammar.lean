import Z80.Proofs.Expr.Derivation

/-!
# Tokens that the grammar accepts

Every operand of an expression is followed by an operator, a closing parenthesis or nothing.  So
tokens that have a value hold no number right behind a name or another number.

## Main definitions

* `Z80.Expr.hasStrayNumber` — whether a number stands right behind a name or a number.

## Main results

* `Z80.Expr.Derives.hasStrayNumber` — the grammar derives no stray number.
* `Z80.Expr.hasStrayNumber_of_evaluateTokens` — tokens that have a value hold no stray number.
-/

namespace Z80.Expr

/-- Whether a lexeme is a number. -/
def Lexeme.isNumber : Lexeme → Bool
  | .number _ => true
  | _ => false

/-- Whether a lexeme is a number or a name. -/
def Lexeme.isWord : Lexeme → Bool
  | .number _ | .name _ => true
  | _ => false

/-- Whether a number stands right behind a name or a number; `afterWord` tells whether one of them
stands in front of the tokens. -/
def hasStrayNumber (afterWord : Bool) : List Token → Bool
  | [] => false
  | token :: tokens =>
    (afterWord && token.lexeme.isNumber) || hasStrayNumber token.lexeme.isWord tokens

variable {scope : Scope} {tokens : List Token} {value : Int64}

/-- An operator or a parenthesis keeps what is in front of it from what is behind it. -/
lemma hasStrayNumber_append (afterWord : Bool) (used : List Token) (p : Punct) (column : Nat)
    (more : List Token) :
    hasStrayNumber afterWord (used ++ ⟨.punct p, column⟩ :: more) =
      (hasStrayNumber afterWord used || hasStrayNumber false more) := by
  induction used generalizing afterWord with
  | nil => simp [hasStrayNumber, Lexeme.isNumber, Lexeme.isWord]
  | cons token used ih => simp [hasStrayNumber, ih, Bool.or_assoc]

/-- **The grammar derives no stray number.**

**Proof sketch.** Induction on the derivation.  Operands are put together with signs, parentheses
and operators, and what is behind one of these starts afresh. -/
theorem Derives.hasStrayNumber {levels rank : Nat} (h : Derives scope levels rank tokens value) :
    hasStrayNumber false tokens = false := by
  induction h with
  | number | here | symbol => rfl
  | signed sign _ ih => rwa [← List.nil_append (_ :: _), hasStrayNumber_append]
  | group _ ih | call half _ ih =>
    simp [Expr.hasStrayNumber, hasStrayNumber_append, Lexeme.isNumber, Lexeme.isWord, ih]
  | operand _ ih => exact ih
  | binary _ _ _ ihl ihr => rw [hasStrayNumber_append, ihl, ihr, Bool.or_false]

/-- **Tokens that have a value hold no number right behind a name or a number.** -/
theorem hasStrayNumber_of_evaluateTokens (h : evaluateTokens scope tokens = .ok value) :
    hasStrayNumber false tokens = false :=
  (evaluateTokens_eq_ok_iff.1 h).hasStrayNumber

end Z80.Expr
