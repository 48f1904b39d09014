import Z80.Assembly.Segment
import Z80.Source.Line

/-!
# Statements

What is left of a line besides the name it defines: a directive or an instruction with operands.
Operands are separated by the commas outside literals and parentheses.

## Main definitions

* `Z80.Source.splitOperands` — the operands of a statement.
* `Z80.Source.stringLiteral?` — what stands between the quotes of an operand that is a string.
* `Z80.Source.Statement` — the statements, and `Z80.Source.Statement.ofText` to read one.
-/

namespace Z80.Source

/-- The parts of a marked text between the commas outside literals and at parenthesis depth 0,
where `part` is what was read of the current part, last character first.  The depth has no bounds
here; a signed count of 32 bits is the same in every text with fewer than `2 ^ 31` parentheses. -/
def partsFrom (depth : Int) (part : List Char) : List (Char × Bool) → List (List Char)
  | [] => [part.reverse]
  | (c, isPlain) :: rest =>
    if isPlain && c = ',' && depth = 0 then part.reverse :: partsFrom depth [] rest
    else
      let depth :=
        if isPlain && c = '(' then depth + 1 else if isPlain && c = ')' then depth - 1 else depth
      partsFrom depth (c :: part) rest

/-- The operands of a text, without the blanks around them; a blank text has none. -/
def splitOperandChars (text : List Char) : List (List Char) :=
  let text := Text.trim text
  if text.isEmpty then [] else (partsFrom 0 [] (marked text)).map Text.trim

/-- The operands of a text, without the blanks around them. -/
def splitOperands (text : String) : List String :=
  (splitOperandChars text.toList).map String.ofList

/-- The characters between the quotes of an operand that starts and ends with the same quote. -/
def stringLiteral? (operand : String) : Option (List Char) :=
  match Text.trim operand.toList with
  | quote :: rest =>
    if (quote = '\x22' || quote = '\x27') && rest.getLast? = some quote then some rest.dropLast
    else none
  | [] => none

/-- The statements of source lines. -/
inductive Statement where
  | empty
  /-- Makes a segment active. -/
  | segment (target : Segment)
  /-- Moves the location counter. -/
  | origin (address : String)
  /-- Writes bytes and the characters of strings. -/
  | bytes (operands : List String)
  /-- Writes words, low byte first. -/
  | words (operands : List String)
  /-- Writes zeros. -/
  | space (size : String)
  /-- Ends the source text. -/
  | stop
  | instruction (word : String) (operands : List String)
  deriving DecidableEq, Repr

namespace Statement

/-- The operand of a directive that takes one. -/
def oneOperand (directive : String) (rest : List Char) : Except Fault String :=
  match splitOperandChars rest with
  | [operand] =>
    if operand.isEmpty then .error (.oneOperandExpected directive)
    else .ok (String.ofList operand)
  | _ => .error (.oneOperandExpected directive)

/-- The operands of a directive that takes at least one. -/
def someOperands (directive : String) (rest : List Char) : Except Fault (List String) :=
  let operands := splitOperandChars rest
  if operands.isEmpty || operands.any List.isEmpty then .error (.operandsExpected directive)
  else .ok (operands.map String.ofList)

/-- The directives with operands, and the one that ends the text. -/
inductive Directive where
  | origin | bytes | words | space | stop | constant
  deriving DecidableEq, Repr

/-- The directive that a word in lower case spells. -/
def Directive.ofWord? (word : String) : Option Directive :=
  if word ∈ ["org", ".org"] then some origin
  else if word ∈ ["db", ".db", "defb", ".text"] then some bytes
  else if word ∈ ["dw", ".dw", "defw"] then some words
  else if word ∈ ["ds", ".ds", "defs"] then some space
  else if word ∈ ["end", ".end"] then some stop
  else if word = "equ" then some constant
  else none

/-- The statement of a directive, given its spelling in lower case and the text behind it. -/
def ofDirective (directive : Directive) (word : String) (rest : List Char) :
    Except Fault Statement :=
  match directive with
  | .origin => (oneOperand word rest).map origin
  | .bytes => (someOperands word rest).map bytes
  | .words => (someOperands word rest).map words
  | .space => (oneOperand word rest).map space
  | .stop => .ok stop
  | .constant => .error .constantWithoutName

/-- The statement that a text, without a name in front of it, holds. -/
def ofText (text : String) : Except Fault Statement :=
  let (word, rest) := splitWord text.toList
  let folded := String.ofList (word.map Char.toLower)
  if word.isEmpty then .ok empty
  else
    match Segment.ofDirective? folded with
    | some target =>
      if rest.isEmpty then .ok (segment target) else .error (.operandsRefused folded)
    | none =>
      match Directive.ofWord? folded with
      | some directive => ofDirective directive folded rest
      | none =>
        let operands := splitOperandChars rest
        if operands.any List.isEmpty then .error (.emptyOperand text)
        else .ok (instruction (String.ofList word) (operands.map String.ofList))

end Statement

end Z80.Source
