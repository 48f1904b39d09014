import Mathlib.Tactic.Common
import Z80.Expr.Eval

/-!
# The grammar of expressions

What an expression says is told by a derivation in the grammar, and what it is worth by the tree of
that derivation, whoever reads it and in whatever order.

## Main definitions

* `Z80.Expr.BinaryOp.meaning?`, `Z80.Expr.Half.bits`, `Z80.Expr.Sign.apply` — what operators,
  functions and signs mean, said of integers and their bits.
* `Z80.Expr.Tree` — the derivations of the grammar, with the tokens that they derive
  (`Z80.Expr.Tree.lexemes`), the value that they have in a scope (`Z80.Expr.Tree.value`) and the
  number of signs and groups inside one another (`Z80.Expr.Tree.depth`).

## Main results

* `Z80.Expr.BinaryOp.apply_eq_ok_iff`, `Z80.Expr.Half.apply_eq_bits` — operators and functions are
  applied as they mean.

## Design

The rules with operators are numbered by the rank of these operators: `Tree 0` is the rule of
`unary`, with that of `primary` in it, and `Tree (r + 1)` is the rule of operands by `Tree r` with
operators of rank `r` between them, so that `Tree 4` is the rule of `expr`.  A rule `a ( op a )*` is
unfolded to the left, which is how such operators are grouped.
-/

namespace Z80.Expr

/-! ### What operators mean -/

namespace BinaryOp

/-- The token of an operator. -/
def punct : BinaryOp → Punct
  | or => .pipe
  | and => .ampersand
  | add => .plus
  | sub => .minus
  | mul => .star
  | div => .slash

/-- How loosely an operator binds. -/
def rank : BinaryOp → Nat
  | mul | div => 0
  | add | sub => 1
  | and => 2
  | or => 3

/-- The value of an operation: sums, differences, products and quotients of integers, the latter
without their fraction, are taken modulo 2 to the 64th, and bits are combined one by one. -/
def meaning? (a b : Int64) : BinaryOp → Option Int64
  | or => some (.ofBitVec (a.toBitVec ||| b.toBitVec))
  | and => some (.ofBitVec (a.toBitVec &&& b.toBitVec))
  | add => some (.ofInt (a.toInt + b.toInt))
  | sub => some (.ofInt (a.toInt - b.toInt))
  | mul => some (.ofInt (a.toInt * b.toInt))
  | div => if b.toInt = 0 then none else some (.ofInt (a.toInt.tdiv b.toInt))

/-- Operators are applied as they mean. -/
lemma apply_eq_ok_iff {op : BinaryOp} {a b v : Int64} :
    op.apply a b = .ok v ↔ op.meaning? a b = some v := by
  have wraps {x : Int64} {n : Int} (h : x.toInt = n.bmod (2 ^ 64)) : Int64.ofInt n = x :=
    Int64.toInt_inj.1 (Int64.toInt_ofInt.trans h.symm)
  cases op with
  | or | and => simp only [apply, meaning?, Except.ok.injEq, Option.some.injEq]; rfl
  | add =>
    simp only [apply, meaning?, Except.ok.injEq, Option.some.injEq, wraps (Int64.toInt_add a b)]
  | sub =>
    simp only [apply, meaning?, Except.ok.injEq, Option.some.injEq, wraps (Int64.toInt_sub a b)]
  | mul =>
    simp only [apply, meaning?, Except.ok.injEq, Option.some.injEq, wraps (Int64.toInt_mul a b)]
  | div =>
    have hzero : b = 0 ↔ b.toInt = 0 := by rw [← Int64.toInt_inj, Int64.toInt_zero]
    simp only [apply, meaning?, hzero, wraps (Int64.toInt_div a b)]
    split <;> simp

lemma punct_injective {op op' : BinaryOp} (h : op.punct = op'.punct) : op = op' := by
  cases op <;> cases op' <;> first | rfl | cases h

end BinaryOp

namespace Half

/-- The name of a function. -/
def name : Half → String
  | low => "low"
  | high => "high"

/-- Bits 0 to 7 or bits 8 to 15 of an integer. -/
def bits (v : Int64) : Half → Int64
  | low => .ofInt (v.toInt % 256)
  | high => .ofInt (v.toInt / 256 % 256)

/-- The low eight bits are the remainder modulo 256. -/
lemma toInt_and_255 (v : Int64) : (v &&& 0xFF).toInt = v.toInt % 256 := by
  have hmask : v.toBitVec.toNat &&& 255 = v.toBitVec.toNat % 256 :=
    Nat.and_two_pow_sub_one_eq_mod _ 8
  have hand : (v &&& 0xFF).toInt = ((v.toBitVec.toNat &&& 255 : Nat) : Int).bmod (2 ^ 64) :=
    BitVec.toInt_and v.toBitVec 255#64
  have hint : v.toInt = (v.toBitVec.toNat : Int).bmod (2 ^ 64) := BitVec.toInt_eq_toNat_bmod _
  rw [hand, hint, hmask]
  simp only [Int.bmod_def]
  omega

/-- Halves are taken as they mean. -/
lemma apply_eq_bits (half : Half) (v : Int64) : half.apply v = half.bits v := by
  have hbyte (x : Int64) : x &&& 0xFF = .ofInt (x.toInt % 256) := by
    rw [← toInt_and_255, Int64.ofInt_toInt]
  cases half with
  | low => exact hbyte v
  | high =>
    have hshift : (v >>> 8).toInt = v.toInt / 256 := by
      have hdiv : (v.toBitVec.sshiftRight 8).toInt = v.toInt >>> (8 : Nat) :=
        BitVec.toInt_sshiftRight
      rw [Int.shiftRight_eq_div_pow] at hdiv
      exact hdiv
    rw [apply, hbyte, hshift, bits]

lemma ofName?_name (half : Half) : ofName? half.name = some half := by
  cases half <;> decide

lemma ofName?_eq_some {half : Half} {name : String} (h : ofName? name = some half) :
    name = half.name := by
  unfold ofName? at h
  split at h
  · cases h; assumption
  · split at h
    · cases h; assumption
    · cases h

end Half

/-- The signs in front of an operand. -/
inductive Sign where
  | minus | plus
  deriving DecidableEq, Repr

namespace Sign

/-- The token of a sign. -/
def punct : Sign → Punct
  | minus => .minus
  | plus => .plus

/-- A value behind a sign. -/
def apply (v : Int64) : Sign → Int64
  | minus => .ofInt (-v.toInt)
  | plus => v

lemma apply_minus (v : Int64) : minus.apply v = -v := by
  rw [apply, Int64.ofInt_neg, Int64.ofInt_toInt]

end Sign

/-! ### Derivations -/

/-- The derivations of the grammar, by the rank of the operators that may stand outside of signs and
groups: `Tree r` has operators of ranks less than `r`. -/
inductive Tree : Nat → Type where
  | number (value : Int64) : Tree 0
  | here : Tree 0
  /-- A name that stands for a symbol. -/
  | symbol (name : String) : Tree 0
  | signed (sign : Sign) (operand : Tree 0) : Tree 0
  | group (inner : Tree 4) : Tree 0
  | call (half : Half) (inner : Tree 4) : Tree 0
  /-- An operand without operators. -/
  | operand {rank : Nat} (first : Tree rank) : Tree (rank + 1)
  /-- One more operand, behind an operator. -/
  | binary (op : BinaryOp) (left : Tree (op.rank + 1)) (right : Tree op.rank) : Tree (op.rank + 1)

namespace Tree

/-- The lexemes that are derived. -/
def lexemes : {rank : Nat} → Tree rank → List Lexeme
  | _, number value => [.number value]
  | _, here => [.here]
  | _, symbol name => [.name name]
  | _, signed sign t => .punct sign.punct :: t.lexemes
  | _, group t => .punct .opening :: (t.lexemes ++ [.punct .closing])
  | _, call half t => .name half.name :: .punct .opening :: (t.lexemes ++ [.punct .closing])
  | _, operand t => t.lexemes
  | _, binary op left right => left.lexemes ++ .punct op.punct :: right.lexemes

/-- The value of a derivation: there is one if every symbol has a value and no divisor is zero. -/
def value (scope : Scope) : {rank : Nat} → Tree rank → Option Int64
  | _, number value => some value
  | _, here => some (.ofNat scope.here.toNat)
  | _, symbol name => (scope.lookup name).map fun word => .ofNat word.toNat
  | _, signed sign t => (t.value scope).map fun v => sign.apply v
  | _, group t => t.value scope
  | _, call half t => (t.value scope).map fun v => half.bits v
  | _, operand t => t.value scope
  | _, binary op left right =>
    (left.value scope).bind fun a => (right.value scope).bind fun b => op.meaning? a b

/-- The greatest number of signs and groups inside one another. -/
def depth : {rank : Nat} → Tree rank → Nat
  | _, number _ | _, here | _, symbol _ => 0
  | _, signed _ t | _, group t | _, call _ t => t.depth + 1
  | _, operand t => t.depth
  | _, binary _ left right => max left.depth right.depth

end Tree

end Z80.Expr
