import Z80.Catalog.Match
import Z80.Expr.Error
import Z80.Text.Hex

/-!
# Faults of assemblies

Everything for which a line of source text can be refused.

## Main definitions

* `Z80.Fault` — the causes, and `Z80.Fault.message` for their wording.
* `Z80.Failure` — a cause and the line it was found on.
-/

namespace Z80

/-- Why a line of source text is refused. -/
inductive Fault where
  | expression (error : Expr.Error)
  | instruction (error : MatchError)
  /-- A string contains a character that is no ASCII character. -/
  | nonAscii (char : Char)
  /-- An instruction has an operand without text. -/
  | emptyOperand (statement : String)
  | duplicateLabel (name : String) (firstLine : Nat)
  | emptyLabel
  | invalidLabel (name : String)
  /-- A byte was written before, by a line given here. -/
  | duplicateCode (address : UInt16) (previousLine : Nat)
  | offsetTooLarge (offset : Int)
  | offsetTooSmall (offset : Int)
  /-- A directive that takes no operands has some. -/
  | operandsRefused (directive : String)
  /-- A directive that takes one operand has none or several. -/
  | oneOperandExpected (directive : String)
  /-- A directive that takes operands has none, or one without text. -/
  | operandsExpected (directive : String)
  /-- A constant is defined without a name. -/
  | constantWithoutName
  deriving DecidableEq, Repr

/-- The wording of a fault. -/
def Fault.message : Fault → String
  | expression error => error.message
  | instruction error => error.message
  | nonAscii char =>
    "syntax error: non-ASCII character '" ++ String.singleton char ++ "' in string"
  | emptyOperand statement => "syntax error: empty operand in '" ++ statement ++ "'"
  | duplicateLabel name firstLine =>
    "duplicate label '" ++ name ++ "' (first defined on line " ++ toString firstLine ++ ")"
  | emptyLabel => "empty label"
  | invalidLabel name => "invalid label '" ++ name ++ "': labels cannot contain whitespace"
  | duplicateCode address previousLine =>
    "duplicate code at " ++ Text.hexWord address ++ "h (already written by line "
      ++ toString previousLine ++ ")"
  | offsetTooLarge offset => "offset too large (" ++ toString offset ++ ")"
  | offsetTooSmall offset => "offset too small (" ++ toString offset ++ ")"
  | operandsRefused directive => "invalid directive: " ++ directive ++ " takes no operands"
  | oneOperandExpected directive =>
    "invalid directive: " ++ directive ++ " expects exactly one operand"
  | operandsExpected directive => "invalid directive: " ++ directive ++ " expects operands"
  | constantWithoutName => "invalid directive: equ needs a name"

/-- The value of an expression, or its fault as one of the line. -/
def liftExpr {α : Type} : Except Expr.Error α → Except Fault α
  | .ok value => .ok value
  | .error error => .error (.expression error)

/-- A fault and the number of the line it was found on, from 1. -/
structure Failure where
  line : Nat
  fault : Fault
  deriving DecidableEq, Repr

/-- The wording of a failure: the line, then the fault. -/
def Failure.message (failure : Failure) : String :=
  "line " ++ toString failure.line ++ ": " ++ failure.fault.message

end Z80
