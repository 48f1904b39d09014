import Z80.Proofs.Expr.Agreement
import Z80.Proofs.Expr.Extension
import Z80.Text.Fold

/-!
# Names that an expression mentions

The name of a function in front of a group is no mention of it.  An expression that does not mention
a name is evaluated alike without that name; one that mentions it has no value without it.

## Main definitions

* `Z80.Expr.mentions` — whether a text mentions a name, in any case of its letters.
* `Z80.Expr.Scope.without` — a scope in which a name has no value.

## Main results

* `Z80.Expr.evaluate_without` — texts that do not mention a name.
* `Z80.Expr.evaluate_without_ne_ok` — texts that mention it.
* `Z80.Expr.evaluate_of_isPositionDependent` — texts that depend on no name at all.
-/

namespace Z80.Expr

/-- Whether some token is a name, and not as the function of a group. -/
def mentionsName (name : String) : List Token → Bool
  | [] => false
  | ⟨.name found, _⟩ :: rest =>
    (found == name && (call? found rest).isNone) || mentionsName name rest
  | _ :: rest => mentionsName name rest

/-- Whether a text mentions a name, in any case of its letters. -/
def mentions (name text : String) : Bool :=
  match tokenize text with
  | .ok tokens => mentionsName (Text.lower name) tokens
  | .error _ => false

/-- The scope in which a name has no value, in any case of its letters. -/
def Scope.without (scope : Scope) (name : String) : Scope where
  lookup other := if Text.lower other = Text.lower name then none else scope.lookup other
  here := scope.here

/-- A scope has the values that it has without a name. -/
lemma Scope.extends_without (scope : Scope) (name : String) :
    scope.Extends (scope.without name) where
  here_eq := rfl
  lookup_eq {other w} h := by
    simp only [Scope.without] at h
    split at h
    · cases h
    · exact h

variable {scope : Scope} {name text : String} {tokens : List Token} {value : Int64}

/-! ### Texts without a name -/

/-- A scope is asked alike by tokens without a name. -/
lemma Scope.AgreeOn.without
    (hlower : ∀ found column, ⟨.name found, column⟩ ∈ tokens → Text.lower found = found)
    (h : mentionsName (Text.lower name) tokens = false) :
    (scope.without name).AgreeOn scope tokens := by
  induction tokens with
  | nil => trivial
  | cons token rest ih =>
    have hrest := ih fun found column hmem => hlower found column (List.mem_cons_of_mem _ hmem)
    match token with
    | ⟨.here, _⟩ => exact ⟨rfl, hrest h⟩
    | ⟨.number _, _⟩ | ⟨.punct _, _⟩ => exact hrest h
    | ⟨.name found, column⟩ =>
      obtain ⟨hfirst, hothers⟩ := Bool.or_eq_false_iff.1 h
      refine ⟨fun hcall => if_neg ?_, hrest hothers⟩
      rw [hlower found column List.mem_cons_self]
      simpa [hcall] using hfirst

/-- **A text that does not mention a name is evaluated alike without it.** -/
theorem evaluate_without (h : mentions name text = false) :
    evaluate (scope.without name) text = evaluate scope text := by
  unfold evaluate
  unfold mentions at h
  cases htokens : tokenize text with
  | error fault => rw [error_bind, error_bind]
  | ok tokens =>
    rw [htokens] at h
    refine evaluateTokens_congr (.without (fun found column hmem => ?_) h)
    exact (isName_of_mem_tokensFrom htokens hmem).lower_eq

/-- A text that does not mention a name is worth the same word without it. -/
lemma evaluateWord_without (h : mentions name text = false) :
    evaluateWord (scope.without name) text = evaluateWord scope text := by
  rw [evaluateWord, evaluateWord, evaluate_without h]

/-! ### Texts with a name -/

/-- An operator or a closing parenthesis does not make a function of the name in front of it. -/
lemma mentionsName_append (used : List Token) {p : Punct} (hp : p ≠ .opening) (column : Nat)
    (more : List Token) :
    mentionsName name (used ++ ⟨.punct p, column⟩ :: more) =
      (mentionsName name used || mentionsName name more) := by
  induction used with
  | nil => rfl
  | cons token used ih =>
    match token with
    | ⟨.here, _⟩ | ⟨.number _, _⟩ | ⟨.punct _, _⟩ => exact ih
    | ⟨.name found, place⟩ =>
      have hgroup : startsGroup (used ++ ⟨.punct p, column⟩ :: more) = startsGroup used := by
        match used with
        | [] => simp [startsGroup, hp]
        | ⟨.here, _⟩ :: _ | ⟨.number _, _⟩ :: _ | ⟨.name _, _⟩ :: _ => rfl
        | ⟨.punct q, _⟩ :: _ => cases q <;> rfl
      simp only [List.cons_append, mentionsName, call?, hgroup, ih, Bool.or_assoc]

/-- **Names that derived tokens mention have values.**

**Proof sketch.** Induction on the derivation.  A name is a token by itself, and operands are put
together with signs, parentheses and operators. -/
theorem Derives.lookup_ne_none {levels rank : Nat} (h : Derives scope levels rank tokens value)
    (hmentions : mentionsName name tokens) : scope.lookup name ≠ none := by
  induction h with
  | number | here => cases hmentions
  | @symbol _ _ found _ hvalue =>
    obtain rfl : found = name := by simpa [mentionsName, call?, startsGroup] using hmentions
    intro hnone
    simp [Scope.value, hnone] at hvalue
  | signed sign _ ih => exact ih hmentions
  | group _ ih =>
    rw [← List.cons_append, mentionsName_append _ (by simp)] at hmentions
    exact ih (by simpa [mentionsName] using hmentions)
  | call half _ ih =>
    rw [← List.cons_append, ← List.cons_append, mentionsName_append _ (by simp)] at hmentions
    exact ih (by simpa [mentionsName, call?, startsGroup, half.ofName?_name] using hmentions)
  | operand _ ih => exact ih hmentions
  | @binary _ _ _ _ _ _ _ op _ _ _ ihl ihr =>
    rw [mentionsName_append _ (by cases op <;> simp [BinaryOp.punct])] at hmentions
    exact (Bool.or_eq_true_iff.1 hmentions).elim ihl ihr

/-- **A text that mentions a name has no value without it.** -/
theorem evaluate_without_ne_ok (h : mentions name text = true) :
    evaluate (scope.without name) text ≠ .ok value := by
  intro hvalue
  obtain ⟨tokens, htokens, hvalue⟩ := bind_eq_ok_iff.1 hvalue
  rw [mentions, htokens] at h
  have hnone : (scope.without name).lookup (Text.lower name) = none := by
    simp only [Scope.without, Text.lower_lower, if_true]
  exact (evaluateTokens_eq_ok_iff.1 hvalue).lookup_ne_none h hnone

/-! ### Texts without names -/

/-- **A text that depends on neither `$` nor a name has the same value everywhere.** -/
theorem evaluate_of_isPositionDependent {s t : Scope} (h : isPositionDependent text = false) :
    evaluate s text = evaluate t text := by
  unfold evaluate
  unfold isPositionDependent at h
  cases htokens : tokenize text with
  | error fault => rw [error_bind, error_bind]
  | ok tokens =>
    rw [htokens] at h
    refine evaluateTokens_congr ?_
    clear htokens
    dsimp only at h
    induction tokens with
    | nil => trivial
    | cons token rest ih =>
      match token with
      | ⟨.here, _⟩ => cases h
      | ⟨.number _, _⟩ | ⟨.punct _, _⟩ => exact ih h
      | ⟨.name found, column⟩ =>
        simp only [consultsScope, Bool.or_eq_false_iff] at h
        exact ⟨fun hcall => by simp [hcall] at h, ih h.2⟩

end Z80.Expr
