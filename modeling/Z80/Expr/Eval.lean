import Z80.Expr.Lexer

/-!
# Evaluating expressions

An expression is evaluated while it is read, from left to right, so the first thing that is wrong
with it is what gets reported, be it a misplaced token, an unknown name or a zero divisor.

```text
expr     := conj ( '|' conj )*
conj     := sum ( '&' sum )*
sum      := product ( ('+' | '-') product )*
product  := unary ( ('*' | '/') unary )*
unary    := ('-' | '+') unary | primary
primary  := number | '$' | name | ('low' | 'high') '(' expr ')' | '(' expr ')'
```

Arithmetic is that of 64-bit two's complement; division truncates toward zero.  Groups and signs
nest at most `maxDepth` deep.

## Main definitions

* `Z80.Expr.Scope` — the values of names and of `$`.
* `Z80.Expr.unary` and its layers `product`, `sum`, `conj`, `expr` — one reader per rule.
* `Z80.Expr.evaluate` — the value of a text; `evaluateByte`, `evaluateWord` and
  `evaluateDisplacement` — the value as what a byte, a word or a displacement can hold.
* `Z80.Expr.isPositionDependent` — whether a text consults `$` or a name at all.

## Design

The nesting budget is the argument of the recursion.  A layer of binary operators is the same
loop each time, `chain`, over the layer below.
-/

namespace Z80.Expr

/-- What an expression may refer to: names, asked for in lower case, and the location `$`. -/
structure Scope where
  lookup : String → Option UInt16
  here : UInt16

/-- The scope in which no name has a value. -/
def Scope.bare (here : UInt16) : Scope :=
  ⟨fun _ => none, here⟩

/-- The deepest nesting of groups and signs. -/
def maxDepth : Nat := 256

/-- The operators with two operands. -/
inductive BinaryOp where
  | or | and | add | sub | mul | div
  deriving DecidableEq, Repr

/-- The value of an operation; a zero divisor is a fault. -/
def BinaryOp.apply : BinaryOp → Int64 → Int64 → Except Error Int64
  | or, a, b => .ok (a ||| b)
  | and, a, b => .ok (a &&& b)
  | add, a, b => .ok (a + b)
  | sub, a, b => .ok (a - b)
  | mul, a, b => .ok (a * b)
  | div, a, b => if b = 0 then .error .divisionByZero else .ok (a / b)

/-- A reader takes the tokens it needs and gives a value and the tokens that are left. -/
abbrev Reader := List Token → Except Error (Int64 × List Token)

/-- A token where the grammar has no place for it. -/
def unexpected (token : Token) : Error :=
  .unexpectedToken token.lexeme.text token.column

/-- Goes on with a value by the operators of one layer, as long as they follow.  Each round uses
up its operator, so `rounds` is never short if it is the number of tokens. -/
def chainFrom (op? : Punct → Option BinaryOp) (operand : Reader) :
    (rounds : Nat) → Int64 → Reader
  | 0, value, tokens => .ok (value, tokens)
  | rounds + 1, value, tokens =>
    match tokens with
    | ⟨.punct p, _⟩ :: rest =>
      match op? p with
      | some op =>
        match operand rest with
        | .error fault => .error fault
        | .ok (right, rest) =>
          match op.apply value right with
          | .error fault => .error fault
          | .ok value => chainFrom op? operand rounds value rest
      | none => .ok (value, tokens)
    | _ => .ok (value, tokens)

/-- One layer of binary operators: an operand, then operators with operands, from the left. -/
def chain (op? : Punct → Option BinaryOp) (operand : Reader) : Reader := fun tokens =>
  match operand tokens with
  | .error fault => .error fault
  | .ok (value, rest) => chainFrom op? operand rest.length value rest

/-- The operators of the innermost layer. -/
def productOp? : Punct → Option BinaryOp
  | .star => some .mul
  | .slash => some .div
  | _ => none

/-- The operators between products. -/
def sumOp? : Punct → Option BinaryOp
  | .plus => some .add
  | .minus => some .sub
  | _ => none

/-- The operator between sums. -/
def conjOp? : Punct → Option BinaryOp
  | .ampersand => some .and
  | _ => none

/-- The operator of the outermost layer. -/
def exprOp? : Punct → Option BinaryOp
  | .pipe => some .or
  | _ => none

/-- All four layers of binary operators over a reader of their operands. -/
def layers (operand : Reader) : Reader :=
  chain exprOp? (chain conjOp? (chain sumOp? (chain productOp? operand)))

/-- The two functions of a group. -/
inductive Half where
  | low | high
  deriving DecidableEq, Repr

/-- The function with a name in lower case. -/
def Half.ofName? (name : String) : Option Half :=
  if name = "low" then some low else if name = "high" then some high else none

/-- Bits 0 to 7 or bits 8 to 15 of a value. -/
def Half.apply : Half → Int64 → Int64
  | low, value => value &&& 0xFF
  | high, value => (value >>> 8) &&& 0xFF

/-- Whether a parenthesis opens next. -/
def startsGroup : List Token → Bool
  | ⟨.punct .opening, _⟩ :: _ => true
  | _ => false

/-- The function that a name stands for; a name is a function only in front of a group. -/
def call? (name : String) (rest : List Token) : Option Half :=
  if startsGroup rest then Half.ofName? name else none

/-- The value of a name that is no function. -/
def Scope.value (scope : Scope) (name : String) : Except Error Int64 :=
  match scope.lookup name with
  | some word => .ok (Int64.ofNat word.toNat)
  | none => .error (.unknownSymbol name)

/-- Reads the parenthesis that closes a group. -/
def closeGroup : Int64 × List Token → Except Error (Int64 × List Token)
  | (value, ⟨.punct .closing, _⟩ :: rest) => .ok (value, rest)
  | _ => .error .unbalancedParentheses

/-- Reads one operand: signs in front of a number, a name, `$` or a group, with `levels` more
levels of signs and groups to go. -/
def unary (scope : Scope) : (levels : Nat) → Reader
  | _, [] => .error .unexpectedEnd
  | levels, ⟨.punct p, column⟩ :: rest =>
    match p with
    | .minus =>
      match levels with
      | 0 => .error (.tooDeep maxDepth)
      | levels + 1 => (unary scope levels rest).map fun r => (-r.1, r.2)
    | .plus =>
      match levels with
      | 0 => .error (.tooDeep maxDepth)
      | levels + 1 => unary scope levels rest
    | .opening =>
      match levels with
      | 0 => .error (.tooDeep maxDepth)
      | levels + 1 => layers (unary scope levels) rest >>= closeGroup
    | p => .error (unexpected ⟨.punct p, column⟩)
  | _, ⟨.number value, _⟩ :: rest => .ok (value, rest)
  | _, ⟨.here, _⟩ :: rest => .ok (Int64.ofNat scope.here.toNat, rest)
  | levels, ⟨.name name, _⟩ :: rest =>
    match call? name rest with
    | some half =>
      match levels with
      | 0 => .error (.tooDeep maxDepth)
      | levels + 1 =>
        (layers (unary scope levels) rest.tail >>= closeGroup).map fun r => (half.apply r.1, r.2)
    | none => (scope.value name).map fun value => (value, rest)

/-- Reads an expression. -/
def expr (scope : Scope) : Reader :=
  layers (unary scope maxDepth)

/-- The value of a token list that is one expression. -/
def evaluateTokens (scope : Scope) (tokens : List Token) : Except Error Int64 :=
  if tokens.isEmpty then .error .empty
  else
    match expr scope tokens with
    | .error fault => .error fault
    | .ok (value, []) => .ok value
    | .ok (_, ⟨.punct .closing, _⟩ :: _) => .error .unbalancedParentheses
    | .ok (_, token :: _) => .error (unexpected token)

/-- The value of an expression. -/
def evaluate (scope : Scope) (text : String) : Except Error Int64 :=
  tokenize text >>= evaluateTokens scope

/-- A value that lies in a range of integers, or the fault that it does not fit. -/
def ensureRange (low high : Int) (width : Width) (value : Int64) : Except Error Int64 :=
  if low ≤ value.toInt ∧ value.toInt ≤ high then .ok value else .error (.outOfRange value width)

/-- The value of an expression as a byte, signed or unsigned. -/
def evaluateByte (scope : Scope) (text : String) : Except Error UInt8 := do
  let value ← evaluate scope text >>= ensureRange (-128) 255 .byte
  return value.toInt8.toUInt8

/-- The value of an expression as a word, signed or unsigned. -/
def evaluateWord (scope : Scope) (text : String) : Except Error UInt16 := do
  let value ← evaluate scope text >>= ensureRange (-32768) 65535 .word
  return value.toInt16.toUInt16

/-- The value of an expression as a signed displacement. -/
def evaluateDisplacement (scope : Scope) (text : String) : Except Error Int8 := do
  let value ← evaluate scope text >>= ensureRange (-128) 127 .displacement
  return value.toInt8

/-- Whether some token is `$` or a name that is no function of a group. -/
def consultsScope : List Token → Bool
  | [] => false
  | ⟨.here, _⟩ :: _ => true
  | ⟨.name name, _⟩ :: rest => (call? name rest).isNone || consultsScope rest
  | _ :: rest => consultsScope rest

/-- Whether the value of a text depends on `$` or on a name.  A text without tokens of its own
does not: its value is the same fault everywhere. -/
def isPositionDependent (text : String) : Bool :=
  match tokenize text with
  | .ok tokens => consultsScope tokens
  | .error _ => false

end Z80.Expr
