import Z80.Proofs.Expr.Derivation

/-!
# Evaluation under more names

An expression that has a value keeps it when further names are given values.  So what is evaluated
while the names of a text are still being collected does not have to be evaluated again when all
of them are known.

## Main definitions

* `Z80.Expr.Scope.Extends` — a scope with at least the names of another one.

## Main results

* `Z80.Expr.evaluate_extends`, `Z80.Expr.evaluateWord_extends` — a value and a word are kept by
  every extension of the scope.
-/

namespace Z80.Expr

/-- The scope `t` has the location of `s` and gives each name of `s` the value it has there. -/
structure Scope.Extends (t s : Scope) : Prop where
  here_eq : t.here = s.here
  lookup_eq : ∀ {name : String} {w : UInt16}, s.lookup name = some w → t.lookup name = some w

/-- A name that has a value keeps it. -/
lemma Scope.Extends.value_eq {t s : Scope} (h : t.Extends s) {name : String} {v : Int64}
    (hv : s.value name = .ok v) : t.value name = .ok v := by
  unfold Scope.value at hv ⊢
  cases hw : s.lookup name with
  | none => simp [hw] at hv
  | some w => simpa [h.lookup_eq hw, hw] using hv

/-- What is derived in a scope is derived in its extensions.

**Proof sketch.** Induction on the derivation.  Names and `$` are the only tokens for which the
scope is asked, and there the extension agrees. -/
lemma Derives.of_extends {t s : Scope} (h : t.Extends s) {levels rank : Nat} {tokens : List Token}
    {v : Int64} (hs : Derives s levels rank tokens v) : Derives t levels rank tokens v := by
  induction hs with
  | number v => exact .number v
  | here => exact h.here_eq ▸ .here
  | symbol hvalue => exact .symbol (h.value_eq hvalue)
  | signed sign _ ih => exact .signed sign ih
  | group _ ih => exact .group ih
  | call half _ ih => exact .call half ih
  | operand _ ih => exact .operand ih
  | binary _ _ hvalue ihl ihr => exact .binary ihl ihr hvalue

/-- **An expression that has a value keeps it when further names are given values.** -/
theorem evaluate_extends {t s : Scope} (h : t.Extends s) {text : String} {v : Int64}
    (hv : evaluate s text = .ok v) : evaluate t text = .ok v := by
  obtain ⟨tokens, htokens, hvalue⟩ := bind_eq_ok_iff.1 hv
  have hderived := (evaluateTokens_eq_ok_iff.1 hvalue).of_extends h
  rw [evaluate, htokens, ok_bind, evaluateTokens_eq_ok_iff.2 hderived]

/-- **A word is kept when further names are given values.** -/
theorem evaluateWord_extends {t s : Scope} (h : t.Extends s) {text : String} {w : UInt16}
    (hw : evaluateWord s text = .ok w) : evaluateWord t text = .ok w := by
  obtain ⟨ranged, hranged, hword⟩ := bind_eq_ok_iff.1 hw
  obtain ⟨v, hv, hrange⟩ := bind_eq_ok_iff.1 hranged
  rw [evaluateWord, evaluate_extends h hv, ok_bind, hrange]
  exact hword

end Z80.Expr
