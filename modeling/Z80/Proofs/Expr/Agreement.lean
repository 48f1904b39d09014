import Z80.Proofs.Expr.Tokens

/-!
# What an expression asks of its scope

An expression asks its scope for the values of its names, but for those of functions, and for the
location if it holds `$`.  In scopes that agree on all of these it has the same value or the same
fault.

## Main definitions

* `Z80.Expr.Scope.AgreeOn` — two scopes that answer alike what some tokens ask.

## Main results

* `Z80.Expr.evaluateTokens_congr` — tokens are evaluated alike in scopes that agree on them.
* `Z80.Expr.evaluate_congr` — a text is evaluated alike in scopes that agree on all words.
-/

namespace Z80.Expr

variable {s t : Scope} {tokens : List Token}

/-- The scopes `s` and `t` agree on the location if `$` is among the tokens, and on each of their
names that is no function. -/
def Scope.AgreeOn (s t : Scope) : List Token → Prop
  | [] => True
  | ⟨.here, _⟩ :: rest => s.here = t.here ∧ s.AgreeOn t rest
  | ⟨.name name, _⟩ :: rest =>
    (call? name rest = none → s.lookup name = t.lookup name) ∧ s.AgreeOn t rest
  | ⟨.number _, _⟩ :: rest | ⟨.punct _, _⟩ :: rest => s.AgreeOn t rest

namespace Scope.AgreeOn

lemma tail {token : Token} (h : s.AgreeOn t (token :: tokens)) : s.AgreeOn t tokens := by
  match token, h with
  | ⟨.here, _⟩, h | ⟨.name _, _⟩, h => exact h.2
  | ⟨.number _, _⟩, h | ⟨.punct _, _⟩, h => exact h

/-- Scopes agree on the last tokens of those on which they agree. -/
lemma of_append : ∀ {used : List Token}, s.AgreeOn t (used ++ tokens) → s.AgreeOn t tokens
  | [], h => h
  | _ :: _, h => of_append h.tail

/-- Scopes agree on tokens if they agree on the location and on all names. -/
lemma of_forall (hhere : s.here = t.here) (h : ∀ (name : String) (column : Nat),
    ⟨.name name, column⟩ ∈ tokens → s.lookup name = t.lookup name) : s.AgreeOn t tokens := by
  induction tokens with
  | nil => trivial
  | cons token rest ih =>
    have hrest := ih fun name column hmem => h name column (List.mem_cons_of_mem _ hmem)
    match token with
    | ⟨.here, _⟩ => exact ⟨hhere, hrest⟩
    | ⟨.name name, column⟩ => exact ⟨fun _ => h name column List.mem_cons_self, hrest⟩
    | ⟨.number _, _⟩ | ⟨.punct _, _⟩ => exact hrest

end Scope.AgreeOn

/-! ### Readers -/

section Readers

variable {levels rank : Nat}

/-- A chain of operators asks no more than its operands do. -/
lemma chainFrom_congr (hread : ∀ tokens, s.AgreeOn t tokens →
      reader s levels rank tokens = reader t levels rank tokens)
    (op? : Punct → Option BinaryOp) (rounds : Nat) (value : Int64) (h : s.AgreeOn t tokens) :
    chainFrom op? (reader s levels rank) rounds value tokens =
      chainFrom op? (reader t levels rank) rounds value tokens := by
  induction rounds generalizing value tokens with
  | zero => rfl
  | succ rounds ih =>
    match tokens with
    | [] | ⟨.number _, _⟩ :: _ | ⟨.name _, _⟩ :: _ | ⟨.here, _⟩ :: _ => rfl
    | ⟨.punct p, column⟩ :: more =>
      cases hop : op? p with
      | none => simp only [chainFrom, hop]
      | some op =>
        simp only [chainFrom, hop, hread more h]
        cases hright : reader t levels rank more with
        | error fault => rfl
        | ok right =>
          -- what is left behind the operand is the end of the tokens
          obtain ⟨used, rfl, -⟩ := derives_of_reader hright
          cases happly : op.apply value right.1 with
          | error fault => simp only [happly]
          | ok result => simpa only [happly] using ih result h.tail.of_append

/-- All layers of operators ask no more than their operands do. -/
lemma reader_congr (hread : ∀ tokens, s.AgreeOn t tokens →
    unary s levels tokens = unary t levels tokens) : ∀ (rank : Nat) (tokens : List Token),
      s.AgreeOn t tokens → reader s levels rank tokens = reader t levels rank tokens
  | 0, tokens, h => hread tokens h
  | rank + 1, tokens, h => by
    simp only [reader, chain, reader_congr hread rank tokens h]
    cases hleft : reader t levels rank tokens with
    | error fault => rfl
    | ok left =>
      obtain ⟨used, rfl, -⟩ := derives_of_reader hleft
      exact chainFrom_congr (reader_congr hread rank) _ _ _ h.of_append

/-- **Operands are read alike in scopes that agree on the tokens.**

**Proof sketch.** Induction on the nesting budget.  Names and `$` are the only tokens for which the
scope is asked. -/
theorem unary_congr (levels : Nat) (h : s.AgreeOn t tokens) :
    unary s levels tokens = unary t levels tokens := by
  induction levels generalizing tokens with
  | zero =>
    match tokens with
    | [] | ⟨.number _, _⟩ :: _ => rfl
    | ⟨.punct p, _⟩ :: rest => cases p <;> rfl
    | ⟨.here, _⟩ :: rest => simp only [unary, h.1]
    | ⟨.name name, _⟩ :: rest =>
      cases hcall : call? name rest with
      | none => simp only [unary, hcall, Scope.value, h.1 hcall]
      | some half => simp only [unary, hcall]
  | succ levels ih =>
    have hlayers (tokens : List Token) (h : s.AgreeOn t tokens) :
        layers (unary s levels) tokens = layers (unary t levels) tokens :=
      reader_congr (fun _ => ih) 4 tokens h
    match tokens with
    | [] | ⟨.number _, _⟩ :: _ => rfl
    | ⟨.punct p, _⟩ :: rest => cases p <;> simp only [unary, ih h.tail, hlayers rest h.tail]
    | ⟨.here, _⟩ :: rest => simp only [unary, h.1]
    | ⟨.name name, _⟩ :: rest =>
      cases hcall : call? name rest with
      | none => simp only [unary, hcall, Scope.value, h.1 hcall]
      | some half =>
        obtain ⟨-, column, more, rfl⟩ := call?_eq_some hcall
        simp only [unary, hcall, List.tail_cons, hlayers more h.tail.tail]

/-- **Tokens are evaluated alike in scopes that agree on them.** -/
theorem evaluateTokens_congr (h : s.AgreeOn t tokens) :
    evaluateTokens s tokens = evaluateTokens t tokens := by
  have hexpr : expr s tokens = expr t tokens :=
    reader_congr (fun _ => unary_congr maxDepth) 4 tokens h
  simp only [evaluateTokens, hexpr]

end Readers

/-! ### Texts -/

/-- **A text is evaluated alike in scopes that agree on all words**, that is on what may be the name
of something in an expression. -/
theorem evaluate_congr (hhere : s.here = t.here)
    (hlookup : ∀ name : String, IsName name.toList → s.lookup name = t.lookup name)
    (text : String) : evaluate s text = evaluate t text := by
  unfold evaluate
  cases htokens : tokenize text with
  | error fault => rfl
  | ok tokens =>
    refine evaluateTokens_congr (.of_forall hhere fun name column hmem => ?_)
    exact hlookup name (isName_of_mem_tokensFrom htokens hmem)

end Z80.Expr
