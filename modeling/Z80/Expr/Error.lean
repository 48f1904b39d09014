/-!
# Faults of expressions

Everything that can be wrong with an expression, from its characters to the range of its value.

## Main definitions

* `Z80.Expr.Width` — the ranges a value can be asked to fit.
* `Z80.Expr.Error` — the causes of failure, and `Z80.Expr.Error.message` for their wording.
-/

namespace Z80.Expr

/-- The destinations of a value, each with a range of its own. -/
inductive Width where
  | byte | word | displacement
  deriving DecidableEq, Repr

/-- The name of a destination in messages. -/
def Width.name : Width → String
  | byte => "byte"
  | word => "word"
  | displacement => "signed displacement"

/-- Why an expression has no value, or none that fits. -/
inductive Error where
  /-- The text holds no token. -/
  | empty
  /-- A character starts no token. -/
  | unexpectedCharacter (char : Char) (column : Nat)
  /-- A numeral, or what starts with a quote, denotes no number. -/
  | invalidNumber (text : String) (column : Nat)
  /-- A name has no value. -/
  | unknownSymbol (name : String)
  /-- A token stands where the grammar has no place for it. -/
  | unexpectedToken (found : String) (column : Nat)
  /-- The text ends where an operand is needed. -/
  | unexpectedEnd
  /-- A parenthesis has no partner. -/
  | unbalancedParentheses
  | divisionByZero
  /-- The value does not fit where it is to go. -/
  | outOfRange (value : Int64) (width : Width)
  /-- Groups and signs are nested deeper than the limit. -/
  | tooDeep (limit : Nat)
  deriving DecidableEq, Repr

/-- The wording of a fault. -/
def Error.message : Error → String
  | empty => "empty expression"
  | unexpectedCharacter char column =>
    "unexpected character '" ++ String.singleton char ++ "' at column " ++ toString column
  | invalidNumber text column => "invalid number '" ++ text ++ "' at column " ++ toString column
  | unknownSymbol name => "unknown symbol '" ++ name ++ "'"
  | unexpectedToken found column => "unexpected '" ++ found ++ "' at column " ++ toString column
  | unexpectedEnd => "unexpected end of expression"
  | unbalancedParentheses => "unbalanced parentheses"
  | divisionByZero => "division by zero"
  | outOfRange value width =>
    "value " ++ toString value.toInt ++ " out of range for a " ++ width.name
  | tooDeep limit => "expression nested deeper than " ++ toString limit ++ " levels"

end Z80.Expr
