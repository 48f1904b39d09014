import Z80.Assembly.Symbols
import Z80.Source.Statement
import Z80.Text.Lines

/-!
# Laying out source text

Before any byte is written every line gets its place.  Names are given their values in the order
of the lines: a label the location of its line, a constant the value of an expression over the
names in front of it.  A statement moves the location counter by its size, which no name behind
it can change.  Text behind an `end` is not read.

## Main definitions

* `Z80.PreparedLine` — a line with its statement, ready to be written.
* `Z80.Layout` — names, location counters and lines up to a place in the text.
* `Z80.Layout.readLine` — the layout behind one more line.
* `Z80.Layout.ofSource` — the layout of a text.
-/

namespace Z80

open Source (Definition Line Statement)

/-- A line of source text with its statement. -/
structure PreparedLine where
  /-- The number of the line, from 1. -/
  number : Nat
  /-- The line as it is written, without the blanks at its end. -/
  source : String
  statement : Statement
  deriving DecidableEq, Repr

/-- What is known of a text in front of some line. -/
structure Layout where
  segments : Segments
  symbols : SymbolTable
  /-- The address of the first origin. -/
  start? : Option UInt16
  lines : Array PreparedLine

/-- The number of bytes that an operand of a bytes directive stands for. -/
def byteCount (operand : String) : Nat :=
  match Source.stringLiteral? operand with
  | some chars => chars.length
  | none => 1

/-- The number of bytes that the operands of a bytes directive stand for. -/
def byteCounts : List String → Nat
  | [] => 0
  | operand :: more => byteCount operand + byteCounts more

/-- The operands of a source instruction. -/
def operandsOf (texts : List String) : List Operand :=
  texts.map Operand.ofText

namespace Layout

/-- The layout of no lines. -/
def blank (active : Segment) : Layout :=
  ⟨.start active, .empty, none, #[]⟩

/-- The values of names in expressions on the next line. -/
def scope (layout : Layout) : Expr.Scope :=
  layout.symbols.scope layout.segments.location

/-- The layout with one more name, which must be new. -/
def name (layout : Layout) (line : Nat) (kind : Symbol.Kind) (name : String) (value : UInt16) :
    Except Fault Layout :=
  match layout.symbols.define ⟨name, value, line, kind⟩ with
  | .ok symbols => .ok { layout with symbols }
  | .error previous => .error (.duplicateLabel name previous.line)

/-- The layout with the name that a line defines. -/
def define (layout : Layout) (line : Nat) : Option Definition → Except Fault Layout
  | none => .ok layout
  | some (.label name) => layout.name line .label name layout.segments.location
  | some (.constant name text) => do
    let value ← liftExpr (Expr.evaluateWord layout.scope text)
    layout.name line .constant name value

/-- The layout with the active location counter moved on. -/
def advance (layout : Layout) (count : UInt16) : Layout :=
  { layout with segments := layout.segments.advance count }

/-- The layout behind a statement. -/
def place (layout : Layout) : Statement → Except Fault Layout
  | .empty | .stop => .ok layout
  | .segment target => .ok { layout with segments := layout.segments.switch target }
  | .origin text => do
    let address ← liftExpr (Expr.evaluateWord layout.scope text)
    return { layout with
      segments := layout.segments.moveTo address
      start? := some (layout.start?.getD address) }
  | .bytes operands => .ok (layout.advance (UInt16.ofNat (byteCounts operands)))
  | .words operands => .ok (layout.advance (UInt16.ofNat (2 * operands.length)))
  | .space text => do
    let size ← liftExpr (Expr.evaluateWord layout.scope text)
    return layout.advance size
  | .instruction word texts =>
    match resolve layout.scope word (operandsOf texts) with
    | .ok resolved => .ok (layout.advance (UInt16.ofNat resolved.descriptor.size))
    | .error error => .error (.instruction error)

/-- The layout with one more prepared line. -/
def keep (layout : Layout) (line : PreparedLine) : Layout :=
  { layout with lines := layout.lines.push line }

/-- The layout behind a line, and the statement of the line. -/
def readLine (layout : Layout) (number : Nat) (text : String) :
    Except Fault (Layout × Statement) := do
  let line ← Line.ofText text
  let layout ← layout.define number line.definition
  let statement ← Statement.ofText line.statement
  let source := String.ofList (Text.trimEnd text.toList)
  let layout ← (layout.keep ⟨number, source, statement⟩).place statement
  return (layout, statement)

/-- The layout behind the lines from a number on, up to the first `end`. -/
def readLines (layout : Layout) (number : Nat) : List String → Except Failure Layout
  | [] => .ok layout
  | text :: more =>
    match layout.readLine number text with
    | .error fault => .error ⟨number, fault⟩
    | .ok (layout, .stop) => .ok layout
    | .ok (layout, _) => layout.readLines (number + 1) more

/-- The layout of a text. -/
def ofSource (active : Segment) (source : String) : Except Failure Layout :=
  (blank active).readLines 1 (Text.lines source)

end Layout

end Z80
