import Mathlib.Logic.Function.Iterate
import Z80.Proofs.Expr.Tree
import Z80.Proofs.Result

/-!
# Expressions are read as the grammar derives them

Evaluating while reading finds the value of a derivation where there is one, and a fault where there
is none.

## Main definitions

* `Z80.Expr.Derives` — the tokens that a rule of the grammar derives, with their value.
* `Z80.Expr.reader` — the reader of a rule.
* `Z80.Expr.unaryOver` — one level of signs and groups, over a reader of what is inside them.

## Main results

* `Z80.Expr.derives_iff_exists_tree` — tokens are derived if they are those of a tree.
* `Z80.Expr.derives_of_reader` — what is read has a derivation with the value that is found.
* `Z80.Expr.Derives.readsOn` — what has a derivation is read, whatever may follow it.
* `Z80.Expr.evaluateTokens_eq_ok_iff` — tokens have the value of their derivation.
* `Z80.Expr.evaluate_eq_ok_iff_derivation` — so has a text, and it is read in bounded depth.

## Design

`Z80.Expr.Derives` is the relation for inductions: it is about tokens with their columns, spends a
budget of levels as the readers do, and takes operators as they are applied.  What is claimed of
expressions is said with trees.
-/

namespace Z80.Expr

variable {scope : Scope} {levels rank : Nat} {tokens rest used : List Token} {value : Int64}

/-! ### Derivations -/

/-- The tokens that a rule derives with signs and groups in at most so many levels, and their
value. -/
inductive Derives (scope : Scope) : (levels rank : Nat) → List Token → Int64 → Prop where
  | number {levels column : Nat} (v : Int64) : Derives scope levels 0 [⟨.number v, column⟩] v
  | here {levels column : Nat} :
    Derives scope levels 0 [⟨.here, column⟩] (.ofNat scope.here.toNat)
  | symbol {levels column : Nat} {name : String} {v : Int64} (hvalue : scope.value name = .ok v) :
    Derives scope levels 0 [⟨.name name, column⟩] v
  | signed {levels column : Nat} {tokens : List Token} {v : Int64} (sign : Sign)
    (inner : Derives scope levels 0 tokens v) :
    Derives scope (levels + 1) 0 (⟨.punct sign.punct, column⟩ :: tokens) (sign.apply v)
  | group {levels opening closing : Nat} {tokens : List Token} {v : Int64}
    (inner : Derives scope levels 4 tokens v) :
    Derives scope (levels + 1) 0
      (⟨.punct .opening, opening⟩ :: (tokens ++ [⟨.punct .closing, closing⟩])) v
  | call {levels column opening closing : Nat} {tokens : List Token} {v : Int64} (half : Half)
    (inner : Derives scope levels 4 tokens v) :
    Derives scope (levels + 1) 0 (⟨.name half.name, column⟩ :: ⟨.punct .opening, opening⟩ ::
      (tokens ++ [⟨.punct .closing, closing⟩])) (half.apply v)
  | operand {levels rank : Nat} {tokens : List Token} {v : Int64}
    (first : Derives scope levels rank tokens v) : Derives scope levels (rank + 1) tokens v
  | binary {levels column : Nat} {before after : List Token} {a b v : Int64} {op : BinaryOp}
    (left : Derives scope levels (op.rank + 1) before a)
    (right : Derives scope levels op.rank after b) (hvalue : op.apply a b = .ok v) :
    Derives scope levels (op.rank + 1) (before ++ ⟨.punct op.punct, column⟩ :: after) v

/-- A symbol has the value that its scope gives to it. -/
lemma Scope.value_eq_ok_iff {name : String} {v : Int64} :
    scope.value name = .ok v ↔
      ((scope.lookup name).map fun word => Int64.ofNat word.toNat) = some v := by
  unfold Scope.value
  cases scope.lookup name <;> simp

/-- A derivation has a tree. -/
lemma Derives.exists_tree (h : Derives scope levels rank tokens value) :
    ∃ t : Tree rank, t.lexemes = tokens.map Token.lexeme ∧ t.value scope = some value ∧
      t.depth ≤ levels := by
  induction h with
  | number v => exact ⟨.number v, rfl, rfl, Nat.zero_le _⟩
  | here => exact ⟨.here, rfl, rfl, Nat.zero_le _⟩
  | @symbol _ _ name _ hvalue =>
    exact ⟨.symbol name, rfl, Scope.value_eq_ok_iff.1 hvalue, Nat.zero_le _⟩
  | signed sign _ ih =>
    obtain ⟨t, hlexemes, hvalue, hdepth⟩ := ih
    refine ⟨.signed sign t, ?_, ?_, Nat.succ_le_succ hdepth⟩
    · simp [Tree.lexemes, hlexemes]
    · simp [Tree.value, hvalue]
  | group _ ih =>
    obtain ⟨t, hlexemes, hvalue, hdepth⟩ := ih
    refine ⟨.group t, ?_, hvalue, Nat.succ_le_succ hdepth⟩
    simp [Tree.lexemes, hlexemes]
  | call half _ ih =>
    obtain ⟨t, hlexemes, hvalue, hdepth⟩ := ih
    refine ⟨.call half t, ?_, ?_, Nat.succ_le_succ hdepth⟩
    · simp [Tree.lexemes, hlexemes]
    · simp [Tree.value, hvalue, half.apply_eq_bits]
  | operand _ ih =>
    obtain ⟨t, hlexemes, hvalue, hdepth⟩ := ih
    exact ⟨.operand t, hlexemes, hvalue, hdepth⟩
  | @binary _ _ _ _ _ _ _ op _ _ hvalue ihl ihr =>
    obtain ⟨t, hlexemes, ha, hdepth⟩ := ihl
    obtain ⟨u, hlexemes', hb, hdepth'⟩ := ihr
    refine ⟨.binary op t u, ?_, ?_, Nat.max_le.2 ⟨hdepth, hdepth'⟩⟩
    · simp [Tree.lexemes, hlexemes, hlexemes']
    · simpa [Tree.value, ha, hb] using BinaryOp.apply_eq_ok_iff.1 hvalue

/-- Tokens of one lexeme are one token. -/
lemma exists_of_map_eq_singleton {lexeme : Lexeme} (h : [lexeme] = tokens.map Token.lexeme) :
    ∃ column, tokens = [⟨lexeme, column⟩] := by
  obtain ⟨⟨_, column⟩, rfl, rfl⟩ := List.map_eq_singleton_iff.1 h.symm
  exact ⟨column, rfl⟩

/-- The first lexeme of tokens is that of their first one. -/
lemma exists_of_map_eq_cons {lexeme : Lexeme} {lexemes : List Lexeme}
    (h : lexeme :: lexemes = tokens.map Token.lexeme) :
    ∃ column more, tokens = ⟨lexeme, column⟩ :: more ∧ lexemes = more.map Token.lexeme := by
  obtain ⟨⟨_, column⟩, more, rfl, rfl, hmore⟩ := List.map_eq_cons_iff.1 h.symm
  exact ⟨column, more, rfl, hmore.symm⟩

/-- Tokens of some lexemes and a last one are those tokens and a last one. -/
lemma exists_of_map_eq_append {lexeme : Lexeme} {lexemes : List Lexeme}
    (h : lexemes ++ [lexeme] = tokens.map Token.lexeme) :
    ∃ column inner, tokens = inner ++ [⟨lexeme, column⟩] ∧ lexemes = inner.map Token.lexeme := by
  obtain ⟨inner, last, rfl, hinner, hlast⟩ := List.map_eq_append_iff.1 h.symm
  obtain ⟨column, rfl⟩ := exists_of_map_eq_singleton hlast.symm
  exact ⟨column, inner, rfl, hinner.symm⟩

/-- The tokens of a tree are derived. -/
lemma Tree.derives (t : Tree rank) (hlexemes : t.lexemes = tokens.map Token.lexeme)
    (hvalue : t.value scope = some value) (hdepth : t.depth ≤ levels) :
    Derives scope levels rank tokens value := by
  induction t generalizing tokens value levels with
  | number v =>
    obtain ⟨column, rfl⟩ := exists_of_map_eq_singleton hlexemes
    obtain rfl := Option.some.inj hvalue
    exact .number v
  | here =>
    obtain ⟨column, rfl⟩ := exists_of_map_eq_singleton hlexemes
    obtain rfl := Option.some.inj hvalue
    exact .here
  | symbol name =>
    obtain ⟨column, rfl⟩ := exists_of_map_eq_singleton hlexemes
    exact .symbol (Scope.value_eq_ok_iff.2 hvalue)
  | signed sign t ih =>
    obtain ⟨column, more, rfl, hmore⟩ := exists_of_map_eq_cons hlexemes
    obtain ⟨v, hv, rfl⟩ := Option.map_eq_some_iff.1 hvalue
    obtain ⟨levels, rfl⟩ := Nat.exists_eq_add_of_le' (Nat.le_of_add_left_le hdepth)
    exact .signed sign (ih hmore hv (Nat.le_of_succ_le_succ hdepth))
  | group t ih =>
    obtain ⟨opening, more, rfl, hmore⟩ := exists_of_map_eq_cons hlexemes
    obtain ⟨closing, inner, rfl, hinner⟩ := exists_of_map_eq_append hmore
    obtain ⟨levels, rfl⟩ := Nat.exists_eq_add_of_le' (Nat.le_of_add_left_le hdepth)
    exact .group (ih hinner hvalue (Nat.le_of_succ_le_succ hdepth))
  | call half t ih =>
    obtain ⟨column, more, rfl, hmore⟩ := exists_of_map_eq_cons hlexemes
    obtain ⟨opening, behind, rfl, hbehind⟩ := exists_of_map_eq_cons hmore
    obtain ⟨closing, inner, rfl, hinner⟩ := exists_of_map_eq_append hbehind
    obtain ⟨v, hv, rfl⟩ := Option.map_eq_some_iff.1 hvalue
    obtain ⟨levels, rfl⟩ := Nat.exists_eq_add_of_le' (Nat.le_of_add_left_le hdepth)
    rw [← half.apply_eq_bits]
    exact .call half (ih hinner hv (Nat.le_of_succ_le_succ hdepth))
  | operand t ih => exact .operand (ih hlexemes hvalue hdepth)
  | binary op left right ihl ihr =>
    obtain ⟨before, more, rfl, hbefore, hmore⟩ := List.map_eq_append_iff.1 hlexemes.symm
    obtain ⟨column, after, rfl, hafter⟩ := exists_of_map_eq_cons hmore.symm
    obtain ⟨a, ha, hvalue⟩ := Option.bind_eq_some_iff.1 hvalue
    obtain ⟨b, hb, hvalue⟩ := Option.bind_eq_some_iff.1 hvalue
    obtain ⟨hleft, hright⟩ := Nat.max_le.1 hdepth
    exact .binary (ihl hbefore.symm ha hleft) (ihr hafter hb hright)
      (BinaryOp.apply_eq_ok_iff.2 hvalue)

/-- **Tokens are derived if they are those of a tree** that has the value. -/
theorem derives_iff_exists_tree : Derives scope levels rank tokens value ↔
    ∃ t : Tree rank, t.lexemes = tokens.map Token.lexeme ∧ t.value scope = some value ∧
      t.depth ≤ levels :=
  ⟨Derives.exists_tree, fun ⟨t, hlexemes, hvalue, hdepth⟩ => t.derives hlexemes hvalue hdepth⟩

/-! ### One reader for each rule -/

/-- The operators of a rank, by their tokens. -/
def rankOp? : Nat → Punct → Option BinaryOp
  | 0 => productOp?
  | 1 => sumOp?
  | 2 => conjOp?
  | 3 => exprOp?
  | _ => fun _ => none

/-- The reader of a rule. -/
def reader (scope : Scope) (levels : Nat) : Nat → Reader
  | 0 => unary scope levels
  | rank + 1 => chain (rankOp? rank) (reader scope levels rank)

lemma rankOp?_eq_some_iff {rank : Nat} {p : Punct} {op : BinaryOp} :
    rankOp? rank p = some op ↔ op.rank = rank ∧ op.punct = p := by
  match rank with
  | 0 | 1 | 2 | 3 => cases p <;> cases op <;> decide
  | rank + 4 =>
    have hrank : op.rank ≠ rank + 4 := by cases op <;> simp [BinaryOp.rank]
    simp [rankOp?, hrank]

/-! ### What is read has a derivation -/

/-- What a reader reads is derived by a rule, with the value that it finds. -/
def Reader.IsSound (r : Reader) (scope : Scope) (levels rank : Nat) : Prop :=
  ∀ {tokens rest : List Token} {value : Int64}, r tokens = .ok (value, rest) →
    ∃ used, tokens = used ++ rest ∧ Derives scope levels rank used value

/-- Operators with their operands go behind what was derived so far. -/
lemma chainFrom_sound {operand : Reader} (h : operand.IsSound scope levels rank)
    {front : List Token} {left : Int64} (hfront : Derives scope levels (rank + 1) front left)
    {rounds : Nat} (hr : chainFrom (rankOp? rank) operand rounds left tokens = .ok (value, rest)) :
    ∃ used, tokens = used ++ rest ∧ Derives scope levels (rank + 1) (front ++ used) value := by
  induction rounds generalizing left tokens front with
  | zero =>
    obtain ⟨rfl, rfl⟩ := Prod.mk.inj (Except.ok.inj hr)
    exact ⟨[], rfl, by rwa [List.append_nil]⟩
  | succ rounds ih =>
    have hstop (heq : (Except.ok (left, tokens) : Except Error _) = .ok (value, rest)) :
        ∃ used, tokens = used ++ rest ∧ Derives scope levels (rank + 1) (front ++ used) value := by
      obtain ⟨rfl, rfl⟩ := Prod.mk.inj (Except.ok.inj heq)
      exact ⟨[], rfl, by rwa [List.append_nil]⟩
    match tokens with
    | [] | ⟨.number _, _⟩ :: _ | ⟨.name _, _⟩ :: _ | ⟨.here, _⟩ :: _ => exact hstop hr
    | ⟨.punct p, column⟩ :: more =>
      cases hop : rankOp? rank p with
      | none =>
        simp only [chainFrom, hop] at hr
        exact hstop hr
      | some op =>
        obtain ⟨rfl, rfl⟩ := rankOp?_eq_some_iff.1 hop
        simp only [chainFrom, hop] at hr
        split at hr
        · cases hr
        · next right behind hright =>
          split at hr
          · cases hr
          · next result happly =>
            obtain ⟨taken, rfl, htaken⟩ := h hright
            obtain ⟨used, rfl, hused⟩ := ih (hfront.binary htaken happly) hr
            refine ⟨⟨.punct op.punct, column⟩ :: (taken ++ used), by simp, ?_⟩
            simpa using hused

/-- One layer of operators over sound readers of operands. -/
lemma chain_sound {operand : Reader} (h : operand.IsSound scope levels rank) :
    (chain (rankOp? rank) operand).IsSound scope levels (rank + 1) := by
  intro tokens rest value hr
  unfold chain at hr
  split at hr
  · cases hr
  · next left behind hleft =>
    obtain ⟨first, rfl, hfirst⟩ := h hleft
    obtain ⟨used, rfl, hused⟩ := chainFrom_sound h hfirst.operand hr
    exact ⟨first ++ used, by simp, hused⟩

/-- All layers over a sound reader of operands. -/
lemma reader_sound (h : (unary scope levels).IsSound scope levels 0) :
    ∀ rank, (reader scope levels rank).IsSound scope levels rank
  | 0 => h
  | rank + 1 => chain_sound (reader_sound h rank)

/-- A group is an expression and the parenthesis that closes it. -/
lemma group_sound (h : (unary scope levels).IsSound scope levels 0)
    (hr : (layers (unary scope levels) tokens >>= closeGroup) = .ok (value, rest)) :
    ∃ used column, tokens = used ++ ⟨.punct .closing, column⟩ :: rest ∧
      Derives scope levels 4 used value := by
  obtain ⟨⟨inner, behind⟩, hinner, hclose⟩ := bind_eq_ok_iff.1 hr
  obtain ⟨used, rfl, hused⟩ := reader_sound h 4 hinner
  unfold closeGroup at hclose
  split at hclose
  · next heq =>
    obtain ⟨rfl, rfl⟩ := Prod.mk.inj (Except.ok.inj hclose)
    obtain ⟨rfl, rfl⟩ := Prod.mk.inj heq
    exact ⟨used, _, rfl, hused⟩
  · cases hclose

/-- A name is a function only in front of a parenthesis. -/
lemma call?_eq_some {name : String} {half : Half} (h : call? name tokens = some half) :
    name = half.name ∧ ∃ column more, tokens = ⟨.punct .opening, column⟩ :: more := by
  unfold call? at h
  split at h
  · next hgroup =>
    refine ⟨Half.ofName?_eq_some h, ?_⟩
    unfold startsGroup at hgroup
    split at hgroup
    · next column more => exact ⟨column, more, rfl⟩
    · cases hgroup
  · cases h

/-- **What is read as an operand has a derivation.**

**Proof sketch.** Induction on the nesting budget, which signs and groups spend. -/
theorem unary_sound (scope : Scope) (levels : Nat) :
    (unary scope levels).IsSound scope levels 0 := by
  intro tokens rest value hr
  match levels, tokens with
  | _, [] => simp [unary] at hr
  | _, ⟨.number v, column⟩ :: more =>
    simp only [unary] at hr
    obtain ⟨rfl, rfl⟩ := Prod.mk.inj (Except.ok.inj hr)
    exact ⟨[_], rfl, .number v⟩
  | _, ⟨.here, column⟩ :: more =>
    simp only [unary] at hr
    obtain ⟨rfl, rfl⟩ := Prod.mk.inj (Except.ok.inj hr)
    exact ⟨[_], rfl, .here⟩
  | 0, ⟨.punct p, column⟩ :: more => cases p <;> cases hr
  | levels + 1, ⟨.punct p, column⟩ :: more =>
    cases p with
    | minus =>
      obtain ⟨⟨v, behind⟩, hinner, heq⟩ := map_eq_ok_iff.1 hr
      obtain ⟨rfl, rfl⟩ := Prod.mk.inj heq
      obtain ⟨used, rfl, hused⟩ := unary_sound scope levels hinner
      rw [← Sign.apply_minus]
      exact ⟨_ :: used, rfl, .signed .minus hused⟩
    | plus =>
      obtain ⟨used, rfl, hused⟩ := unary_sound scope levels hr
      exact ⟨_ :: used, rfl, .signed .plus hused⟩
    | opening =>
      obtain ⟨used, close, rfl, hused⟩ := group_sound (unary_sound scope levels) hr
      exact ⟨⟨.punct .opening, column⟩ :: (used ++ [⟨.punct .closing, close⟩]), by simp,
        .group hused⟩
    | star | slash | ampersand | pipe | closing => cases hr
  | levels, ⟨.name name, column⟩ :: more =>
    cases hcall : call? name more with
    | none =>
      simp only [unary, hcall] at hr
      obtain ⟨v, hv, heq⟩ := map_eq_ok_iff.1 hr
      obtain ⟨rfl, rfl⟩ := Prod.mk.inj heq
      exact ⟨[_], rfl, .symbol hv⟩
    | some half =>
      match levels with
      | 0 => simp [unary, hcall] at hr
      | levels + 1 =>
        simp only [unary, hcall] at hr
        obtain ⟨⟨v, behind⟩, hinner, heq⟩ := map_eq_ok_iff.1 hr
        obtain ⟨rfl, rfl⟩ := Prod.mk.inj heq
        obtain ⟨used, close, htail, hused⟩ := group_sound (unary_sound scope levels) hinner
        obtain ⟨rfl, opening, behind, rfl⟩ := call?_eq_some hcall
        rw [List.tail_cons] at htail
        subst htail
        exact ⟨⟨.name half.name, column⟩ :: ⟨.punct .opening, opening⟩ ::
          (used ++ [⟨.punct .closing, close⟩]), by simp, .call half hused⟩

/-- **What is read has a derivation**, by the rule of its reader. -/
theorem derives_of_reader (h : reader scope levels rank tokens = .ok (value, rest)) :
    ∃ used, tokens = used ++ rest ∧ Derives scope levels rank used value :=
  reader_sound (unary_sound scope levels) rank h

/-! ### What has a derivation is read -/

/-- Tokens that may follow a derivation by a rule: none, or a parenthesis that closes, or an
operator of this rank or a greater one. -/
def Follows (rank : Nat) (rest : List Token) : Prop :=
  ∀ token ∈ rest.head?, token.lexeme = .punct .closing ∨
    ∃ op : BinaryOp, token.lexeme = .punct op.punct ∧ rank ≤ op.rank

lemma Follows.of_le {rank' : Nat} (h : Follows rank' rest) (hle : rank ≤ rank') :
    Follows rank rest := by
  intro token htoken
  rcases h token htoken with hclosing | ⟨op, hop, hrank⟩
  · exact .inl hclosing
  · exact .inr ⟨op, hop, Nat.le_trans hle hrank⟩

/-- A chain stops in front of what may follow it. -/
lemma chainFrom_of_follows (h : Follows (rank + 1) rest) (operand : Reader) (rounds : Nat) :
    chainFrom (rankOp? rank) operand rounds value rest = .ok (value, rest) := by
  match rounds, rest with
  | 0, _ | _ + 1, [] | _ + 1, ⟨.number _, _⟩ :: _ | _ + 1, ⟨.name _, _⟩ :: _
  | _ + 1, ⟨.here, _⟩ :: _ => rfl
  | _ + 1, ⟨.punct p, column⟩ :: more =>
    have hnone : rankOp? rank p = none := by
      rw [Option.eq_none_iff_forall_ne_some]
      intro op hop
      obtain ⟨rfl, rfl⟩ := rankOp?_eq_some_iff.1 hop
      rcases h ⟨.punct op.punct, column⟩ rfl with hclosing | ⟨op', hop', hrank⟩
      · cases op <;> cases hclosing
      · obtain rfl := BinaryOp.punct_injective (Lexeme.punct.inj hop')
        omega
    simp only [chainFrom, hnone]

/-- A name in front of what may follow an operand is a symbol. -/
lemma call?_of_follows (h : Follows 0 rest) (name : String) : call? name rest = none := by
  have hgroup : startsGroup rest = false := by
    unfold startsGroup
    split
    · next column more =>
      rcases h ⟨.punct .opening, column⟩ rfl with hclosing | ⟨op, hop, -⟩
      · cases hclosing
      · cases op <;> cases hop
    · rfl
  simp [call?, hgroup]

/-- How the tokens of a derivation are read, whatever may follow its first rule: an operand with its
value, and a chain up to its last operand. -/
def ReadsOn (scope : Scope) (levels : Nat) : Nat → List Token → Int64 → Prop
  | 0, used, value => ∀ rest, Follows 0 rest →
    unary scope levels (used ++ rest) = .ok (value, rest)
  | rank + 1, used, value => ∀ rest, Follows rank rest → ∃ rounds, rest.length ≤ rounds ∧
    reader scope levels (rank + 1) (used ++ rest) =
      chainFrom (rankOp? rank) (reader scope levels rank) rounds value rest

/-- The tokens of a derivation are read with its value, in front of what may follow it. -/
lemma ReadsOn.reader_eq_ok (h : ReadsOn scope levels rank used value) (hrest : Follows rank rest) :
    reader scope levels rank (used ++ rest) = .ok (value, rest) := by
  match rank with
  | 0 => exact h rest hrest
  | rank + 1 =>
    obtain ⟨rounds, -, hread⟩ := h rest (hrest.of_le (Nat.le_succ rank))
    rw [hread, chainFrom_of_follows hrest]

/-- A group is read up to its parenthesis. -/
lemma ReadsOn.group_eq_ok (h : ReadsOn scope levels 4 used value) (column : Nat)
    (rest : List Token) :
    (layers (unary scope levels) (used ++ ⟨.punct .closing, column⟩ :: rest) >>= closeGroup) =
      .ok (value, rest) := by
  have hclosing : Follows 4 (⟨.punct .closing, column⟩ :: rest) := by
    intro token htoken
    obtain rfl := Option.some.inj htoken
    exact .inl rfl
  have hread : layers (unary scope levels) (used ++ ⟨.punct .closing, column⟩ :: rest) =
      .ok (value, ⟨.punct .closing, column⟩ :: rest) := h.reader_eq_ok hclosing
  rw [hread]
  rfl

/-- **What has a derivation is read.**

**Proof sketch.** Induction on the derivation.  A chain is derived to the left, so its reader has
the value of the left part when it comes to the last operator. -/
theorem Derives.readsOn (h : Derives scope levels rank used value) :
    ReadsOn scope levels rank used value := by
  induction h with
  | number v | here => exact fun rest _ => by simp [unary]
  | symbol hvalue =>
    intro rest hrest
    simp [unary, call?_of_follows hrest, hvalue, Except.map]
  | signed sign _ ih =>
    intro rest hrest
    have hread := ih rest hrest
    cases sign with
    | minus => simp only [Sign.punct, List.cons_append, unary, hread, Except.map, Sign.apply_minus]
    | plus => simpa only [Sign.punct, List.cons_append, unary, Sign.apply] using hread
  | @group _ _ closing _ _ _ ih =>
    intro rest _
    simpa [unary] using ih.group_eq_ok closing rest
  | @call _ _ opening closing tokens _ half _ ih =>
    intro rest _
    have hread := ih.group_eq_ok closing rest
    have hcall : call? half.name (⟨.punct .opening, opening⟩ ::
        (tokens ++ ⟨.punct .closing, closing⟩ :: rest)) = some half := half.ofName?_name
    simp [unary, hcall, hread, Except.map]
  | operand _ ih =>
    intro rest hrest
    exact ⟨rest.length, Nat.le_refl _, by rw [reader, chain, ih.reader_eq_ok hrest]⟩
  | @binary _ column before after a b v op _ _ hvalue ihl ihr =>
    intro rest hrest
    -- the left part is read up to the operator
    have hoperator : Follows op.rank (⟨.punct op.punct, column⟩ :: (after ++ rest)) := by
      intro token htoken
      obtain rfl := Option.some.inj htoken
      exact .inr ⟨op, rfl, Nat.le_refl _⟩
    obtain ⟨rounds, hrounds, hread⟩ := ihl _ hoperator
    obtain ⟨rounds, rfl⟩ := Nat.exists_eq_add_of_le' (Nat.le_of_add_left_le hrounds)
    -- and the chain goes on with it
    have hoperand := ihr.reader_eq_ok hrest
    have hop : rankOp? op.rank op.punct = some op := rankOp?_eq_some_iff.2 ⟨rfl, rfl⟩
    refine ⟨rounds, ?_, ?_⟩
    · simp only [List.length_cons, List.length_append] at hrounds
      omega
    · rw [List.append_assoc, List.cons_append, hread]
      simp only [chainFrom, hop, hoperand, hvalue]

/-! ### Expressions -/

/-- **Tokens have the value of their derivation.** -/
theorem evaluateTokens_eq_ok_iff :
    evaluateTokens scope tokens = .ok value ↔ Derives scope maxDepth 4 tokens value := by
  constructor
  · intro h
    unfold evaluateTokens at h
    split at h
    · cases h
    · split at h
      · cases h
      · next v hexpr =>
        obtain rfl := Except.ok.inj h
        obtain ⟨used, rfl, hused⟩ := @derives_of_reader scope maxDepth 4 _ _ _ hexpr
        rwa [List.append_nil]
      · cases h
      · cases h
  · intro h
    have hnone : Follows 4 [] := by simp [Follows]
    have hexpr : expr scope tokens = .ok (value, []) := by
      have key := h.readsOn.reader_eq_ok hnone
      rwa [List.append_nil] at key
    cases tokens with
    | nil => cases hexpr
    | cons token tokens => simp [evaluateTokens, hexpr]

/-! ### Depth -/

/-- One level of signs and groups: an operand, if what is behind a sign or inside a group is read by
`inner`. -/
def unaryOver (scope : Scope) (inner : Reader) : Reader
  | [] => .error .unexpectedEnd
  | ⟨.punct p, column⟩ :: rest =>
    match p with
    | .minus => (inner rest).map fun r => (-r.1, r.2)
    | .plus => inner rest
    | .opening => layers inner rest >>= closeGroup
    | p => .error (unexpected ⟨.punct p, column⟩)
  | ⟨.number value, _⟩ :: rest => .ok (value, rest)
  | ⟨.here, _⟩ :: rest => .ok (Int64.ofNat scope.here.toNat, rest)
  | ⟨.name name, _⟩ :: rest =>
    match call? name rest with
    | some half => (layers inner rest.tail >>= closeGroup).map fun r => (half.apply r.1, r.2)
    | none => (scope.value name).map fun value => (value, rest)

/-- Nothing is read, as it is nested too deep. -/
def refusal : Reader := fun _ => .error (.tooDeep maxDepth)

/-- At the last level what is nested deeper is refused. -/
lemma unary_zero (scope : Scope) : unary scope 0 = unaryOver scope refusal := by
  funext tokens
  match tokens with
  | [] | ⟨.number _, _⟩ :: _ | ⟨.here, _⟩ :: _ => rfl
  | ⟨.punct p, _⟩ :: rest => cases p <;> rfl
  | ⟨.name name, _⟩ :: rest =>
    cases hcall : call? name rest <;> simp only [unary, unaryOver, hcall]
    rfl

/-- In front of the last level what is nested is read by the next one. -/
lemma unary_succ (scope : Scope) (levels : Nat) :
    unary scope (levels + 1) = unaryOver scope (unary scope levels) := by
  funext tokens
  match tokens with
  | [] | ⟨.number _, _⟩ :: _ | ⟨.here, _⟩ :: _ => rfl
  | ⟨.punct p, _⟩ :: rest => cases p <;> rfl
  | ⟨.name name, _⟩ :: rest =>
    cases hcall : call? name rest <;> simp only [unary, unaryOver, hcall]

/-- **Operands are read by one level within another**, and what is deeper than the last level is
refused. -/
theorem unary_eq_iterate (scope : Scope) (levels : Nat) :
    unary scope levels = (unaryOver scope)^[levels + 1] refusal := by
  induction levels with
  | zero => exact unary_zero scope
  | succ levels ih => rw [Function.iterate_succ_apply', ← ih, unary_succ]

/-- **Expressions have the values that the grammar gives to them.**  A text that is made of tokens
has a value if and only if its tokens have a derivation with this value, in which no more than
`maxDepth` signs and groups are inside one another; any other text of tokens is refused.  And no
text is read in more levels: an expression is read by `maxDepth + 1` readers within one another, the
outermost for what is outside all signs and groups, none of which calls itself.

**Proof sketch.** What is read has a derivation, by induction on the nesting budget; what has a
derivation is read, by induction on the derivation; and each level spends one of the budget. -/
theorem evaluate_eq_ok_iff_derivation {text : String} {tokens : List Token} (scope : Scope)
    (htokens : tokenize text = .ok tokens) :
    (∀ value, evaluate scope text = .ok value ↔
      ∃ t : Tree 4, t.lexemes = tokens.map Token.lexeme ∧ t.value scope = some value ∧
        t.depth ≤ maxDepth) ∧
    ((¬ ∃ (value : Int64) (t : Tree 4), t.lexemes = tokens.map Token.lexeme ∧
        t.value scope = some value ∧ t.depth ≤ maxDepth) →
      ∃ fault, evaluate scope text = .error fault) ∧
    expr scope = layers ((unaryOver scope)^[maxDepth + 1] refusal) := by
  have hevaluate : evaluate scope text = evaluateTokens scope tokens := by
    rw [evaluate, htokens, ok_bind]
  have hiff (value : Int64) : evaluate scope text = .ok value ↔
      ∃ t : Tree 4, t.lexemes = tokens.map Token.lexeme ∧ t.value scope = some value ∧
        t.depth ≤ maxDepth := by
    rw [hevaluate, evaluateTokens_eq_ok_iff, derives_iff_exists_tree]
  refine ⟨hiff, fun hnone => ?_, ?_⟩
  · cases h : evaluate scope text with
    | error fault => exact ⟨fault, rfl⟩
    | ok value => exact absurd ⟨value, (hiff value).1 h⟩ hnone
  · rw [expr, unary_eq_iterate]

/-- Differences are grouped to the left. -/
theorem evaluate_eq_ok_iff_derivation_difference : ∃ tokens,
    tokenize "10-4-low(103h)" = .ok tokens ∧ ∃ t : Tree 4, t.lexemes = tokens.map Token.lexeme ∧
      t.value (.bare 0) = some 3 ∧ t.depth ≤ maxDepth := by
  obtain ⟨tokens, htokens⟩ :=
    exists_of_isOk (x := tokenize "10-4-low(103h)") (by decide +kernel)
  have hvalue : evaluate (.bare 0) "10-4-low(103h)" = .ok 3 := by decide +kernel
  exact ⟨tokens, htokens, ((evaluate_eq_ok_iff_derivation (.bare 0) htokens).1 3).1 hvalue⟩

end Z80.Expr
