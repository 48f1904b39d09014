import Mathlib.Tactic.Common
import Z80.Assembly.Fault

/-!
# Results and faults

A computation that may fail succeeds if each of its parts does, and fails where the first of them
fails.

## Main results

* `Z80.bind_eq_ok_iff`, `Z80.bind_eq_error_iff` — success and failure of a sequence.
* `Z80.map_eq_ok_iff`, `Z80.map_eq_error_iff` — success and failure of what is made of a result.
* `Z80.liftExpr_eq_ok_iff`, `Z80.liftExpr_eq_error_iff` — those of an expression on a line.
* `Z80.toOption_eq_iff`, `Z80.toOption_bind_congr` — results that are the same but for their faults.
-/

namespace Z80

variable {ε α β γ δ : Type} {x : Except ε α}

/-- A sequence succeeds if both parts do. -/
lemma bind_eq_ok_iff {f : α → Except ε β} {b : β} :
    x >>= f = .ok b ↔ ∃ a, x = .ok a ∧ f a = .ok b := by
  cases x <;> simp [bind, Except.bind]

/-- A sequence fails if its first part does, or the second part behind it. -/
lemma bind_eq_error_iff {f : α → Except ε β} {e : ε} :
    x >>= f = .error e ↔ x = .error e ∨ ∃ a, x = .ok a ∧ f a = .error e := by
  cases x <;> simp [bind, Except.bind]

/-- What is made of a result is there if the result is. -/
lemma map_eq_ok_iff {f : α → β} {b : β} : x.map f = .ok b ↔ ∃ a, x = .ok a ∧ f a = b := by
  cases x <;> simp [Except.map]

/-- What is made of a result fails as the result does. -/
lemma map_eq_error_iff {f : α → β} {e : ε} : x.map f = .error e ↔ x = .error e := by
  cases x <;> simp [Except.map]

/-- A sequence that starts with a value goes on with it. -/
@[simp]
lemma ok_bind {f : α → Except ε β} (a : α) : (Except.ok a >>= f) = f a := rfl

/-- A sequence that starts with a fault is that fault. -/
@[simp]
lemma error_bind {f : α → Except ε β} (e : ε) : (Except.error e >>= f) = .error e := rfl

/-- A sequence whose second part is made of another one is made of that sequence. -/
lemma bind_congr_map {f : α → Except ε β} {g : α → Except ε γ} {u : β → γ}
    (h : ∀ a, g a = (f a).map u) : x >>= g = (x >>= f).map u := by
  cases x with
  | error e => rfl
  | ok a => exact h a

/-- A sequence both of whose parts are made of others is made of the sequence of those. -/
lemma map_bind_congr_map {v : α → δ} {f : α → Except ε β} {g : δ → Except ε γ} {u : β → γ}
    (h : ∀ a, g (v a) = (f a).map u) : x.map v >>= g = (x >>= f).map u := by
  cases x with
  | error e => rfl
  | ok a => exact h a

/-- A result that is there is some value. -/
lemma exists_of_isOk (h : x.isOk) : ∃ a, x = .ok a := by
  cases x with
  | error e => simp [Except.isOk, Except.toBool] at h
  | ok a => exact ⟨a, rfl⟩

/-- An expression on a line has the value that it has by itself. -/
lemma liftExpr_eq_ok_iff {y : Except Expr.Error α} {a : α} : liftExpr y = .ok a ↔ y = .ok a := by
  cases y <;> simp [liftExpr]

/-- An expression on a line fails as an expression. -/
lemma liftExpr_eq_error_iff {y : Except Expr.Error α} {fault : Fault} :
    liftExpr y = .error fault ↔ ∃ e, y = .error e ∧ fault = .expression e := by
  cases y <;> simp [liftExpr, eq_comm]

/-! ### Results without their faults -/

/-- Two computations have the same result, or both none, if they succeed alike. -/
lemma toOption_eq_iff {y : Except ε α} :
    x.toOption = y.toOption ↔ ∀ a, x = .ok a ↔ y = .ok a := by
  constructor
  · intro h a
    cases x <;> cases y <;> simp_all [Except.toOption]
  · intro h
    cases x with
    | ok a => rw [(h a).1 rfl]
    | error e =>
      cases y with
      | ok b => exact absurd ((h b).2 rfl) (by simp)
      | error e' => rfl

/-- Sequences have the same result if their parts do. -/
lemma toOption_bind_congr {y : Except ε α} {f g : α → Except ε β} (h : x.toOption = y.toOption)
    (hfg : ∀ a, x = .ok a → (f a).toOption = (g a).toOption) :
    (x >>= f).toOption = (y >>= g).toOption := by
  cases x with
  | ok a =>
    rw [(toOption_eq_iff.1 h a).1 rfl]
    exact hfg a rfl
  | error e =>
    cases y with
    | ok b => cases h
    | error e' => rfl

/-- What is made of the same result is the same. -/
lemma toOption_map_congr {y : Except ε α} (f : α → β) (h : x.toOption = y.toOption) :
    (x.map f).toOption = (y.map f).toOption := by
  cases x <;> cases y <;> simp_all [Except.toOption, Except.map]

/-- An expression on a line has the result that it has by itself. -/
@[simp]
lemma toOption_liftExpr (y : Except Expr.Error α) : (liftExpr y).toOption = y.toOption := by
  cases y <;> rfl

end Z80
