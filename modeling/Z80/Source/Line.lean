import Z80.Assembly.Fault
import Z80.Source.Quote

/-!
# Source lines

A line may define a name and may hold a statement.  Before either is looked for, the comment is
cut off and each character literal becomes a numeral, so that `ld a,':'` holds no label.

## Main definitions

* `Z80.Source.stripComment` — a line up to its comment.
* `Z80.Source.replaceCharLiterals` — a line with numerals for its character literals.
* `Z80.Source.Definition` — a name that a line defines; `Z80.Source.Line` — a line taken apart.
* `Z80.Source.Line.ofText` — the definition and the statement of a line.
-/

namespace Z80.Source

/-- A line up to its first unquoted semicolon. -/
def stripComment (line : List Char) : List Char :=
  match splitAtUnquoted? ';' line with
  | some (before, _) => before
  | none => line

/-- The numeral of an ASCII character: two hexadecimal digits between `0` and `h`. -/
def charNumeral (c : Char) : List Char :=
  '0' :: Text.hexDigits 2 c.toNat ++ ['h']

/-- Whether an apostrophe, the character `c` and another apostrophe are a character literal
here. -/
def Reading.startsCharLiteral (r : Reading) (c : Char) : Bool :=
  r.quote.isNone && r.opens '\x27' && c.toNat < 128 && c ≠ '\x27'

/-- The characters behind a reading with a numeral for each character literal. -/
def replaceFrom (r : Reading) : List Char → List Char
  | [] => []
  | '\x27' :: c :: '\x27' :: cs =>
    if r.startsCharLiteral c then
      charNumeral c ++ replaceFrom ⟨none, some c, some '\x27'⟩ cs
    else '\x27' :: replaceFrom (r.next '\x27') (c :: '\x27' :: cs)
  | c :: cs => c :: replaceFrom (r.next c) cs
termination_by cs => cs.length

/-- A line with a numeral for each character literal.  Longer literals stay as they are. -/
def replaceCharLiterals (line : List Char) : List Char :=
  replaceFrom .start line

/-- The first word of a text, and what follows it without the blanks around it. -/
def splitWord (text : List Char) : List Char × List Char :=
  let text := Text.trim text
  (text.takeWhile fun c => !Text.isBlank c, Text.trim (text.dropWhile fun c => !Text.isBlank c))

/-- Whether a word is the directive that defines a constant. -/
def isEqu (word : List Char) : Bool :=
  word.map Char.toLower = ['e', 'q', 'u']

/-- A name that a line defines. -/
inductive Definition where
  /-- The name of the location of the line. -/
  | label (name : String)
  /-- The name of the value of an expression. -/
  | constant (name value : String)
  deriving DecidableEq, Repr

/-- A line taken apart: the name it defines, and its statement without the blanks around it. -/
structure Line where
  definition : Option Definition
  statement : String
  deriving DecidableEq, Repr

/-- The name in front of a colon, which is not empty and holds no blank. -/
def labelName (before : List Char) : Except Fault (List Char) :=
  let name := Text.trim before
  if name.isEmpty then .error .emptyLabel
  else if name.any Text.isBlank then .error (.invalidLabel (String.ofList name))
  else .ok name

namespace Line

/-- The parts of a line with a name in front of a colon, and text behind it. -/
def ofLabelled (name rest : List Char) : Line :=
  let (first, afterFirst) := splitWord rest
  if isEqu first then ⟨some (.constant (String.ofList name) (String.ofList afterFirst)), ""⟩
  else ⟨some (.label (String.ofList name)), String.ofList (Text.trim rest)⟩

/-- The parts of a line without a colon: a constant is defined by its name, `equ` and a value. -/
def ofUnlabelled (text : List Char) : Line :=
  let (first, afterFirst) := splitWord text
  let (second, afterSecond) := splitWord afterFirst
  if isEqu second && !first.isEmpty then
    ⟨some (.constant (String.ofList first) (String.ofList afterSecond)), ""⟩
  else ⟨none, String.ofList (Text.trim text)⟩

/-- The parts of a line without comment and character literals. -/
def ofPrepared (text : List Char) : Except Fault Line :=
  match splitAtUnquoted? ':' text with
  | some (before, rest) => (labelName before).map fun name => ofLabelled name rest
  | none => .ok (ofUnlabelled text)

/-- The parts of a source line. -/
def ofText (line : String) : Except Fault Line :=
  ofPrepared (replaceCharLiterals (stripComment line.toList))

end Line

end Z80.Source
