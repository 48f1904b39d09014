import Z80.Operand.Index
import Z80.Text.Blank
import Z80.Text.Fold

/-!
# Operands in source text

What matters of an operand before any expression in it is evaluated: whether it is a register,
whether one pair of parentheses encloses all of it, and whether it is indexed.  These questions
are asked of its compact form, without blanks and in lower case.

## Main definitions

* `Z80.Operand` — an operand as written, its compact form, and its shape.
* `Z80.Operand.Shape` — register, indexed, or an expression in parentheses or without.
* `Z80.Operand.ofText` — the operand that a piece of a source line is.
* `Z80.Operand.inner?` — what stands in the parentheses around an operand.

## Design

A text in parentheses that is a register, such as `(hl)`, has the shape of a register: it can be
no expression, and a slot that spells it out is compared with the compact form.
-/

namespace Z80

/-- The names of registers, the halves of index registers in both spellings. -/
def registerNames : List String :=
  ["a", "b", "c", "d", "e", "h", "l", "f", "i", "r", "af", "af'", "bc", "de", "hl", "sp", "ix",
    "iy", "ixh", "ixl", "iyh", "iyl", "xh", "xl", "yh", "yl"]

/-- Whether a text is the name of a register, in any case and with blanks around it. -/
def isRegister (text : String) : Bool :=
  registerNames.contains (Text.lower (Text.trimmed text))

/-- Whether the parenthesis that is open, with `depth` more inside it, closes on the last
character.  The depth has no bound here; a signed count of 32 bits is the same in every text with
fewer than `2 ^ 31` parentheses. -/
def closesAtEnd : (depth : Nat) → List Char → Bool
  | _, [] => false
  | 0, ')' :: cs => cs.isEmpty
  | depth + 1, ')' :: cs => closesAtEnd depth cs
  | depth, '(' :: cs => closesAtEnd (depth + 1) cs
  | depth, _ :: cs => closesAtEnd depth cs

/-- What one pair of parentheses encloses, if it encloses all characters. -/
def enclosed? : List Char → Option (List Char)
  | '(' :: cs => if closesAtEnd 0 cs then some cs.dropLast else none
  | _ => none

/-- The characters of a text without blanks and in lower case. -/
def compactChars (text : String) : List Char :=
  (text.toList.filter fun c => !Text.isBlank c).map Char.toLower

namespace Operand

/-- The displacement that follows an index register: nothing, or a text with its sign. -/
def displacement? : List Char → Option (Option String)
  | [] => some none
  | c :: cs => if c = '+' || c = '-' then some (some (String.ofList (c :: cs))) else none

/-- The index register that a text in parentheses starts with, and its displacement. -/
def indexed? : List Char → Option (Index × Option String)
  | 'i' :: 'x' :: cs => (displacement? cs).map fun d => (Index.ix, d)
  | 'i' :: 'y' :: cs => (displacement? cs).map fun d => (Index.iy, d)
  | _ => none

/-- What kind of thing an operand is. -/
inductive Shape where
  /-- A register, alone or in parentheses. -/
  | register
  /-- An index register in parentheses with the compact text of its displacement, if any. -/
  | indexed (index : Index) (displacement : Option String)
  /-- Anything else in parentheses. -/
  | enclosed
  /-- Anything else. -/
  | plain
  deriving DecidableEq, Repr

namespace Shape

/-- The shape of an operand with the given compact characters. -/
def ofCompact (cs : List Char) : Shape :=
  match enclosed? cs with
  | some inner =>
    match indexed? inner with
    | some (index, displacement) => indexed index displacement
    | none => if isRegister (String.ofList inner) then register else enclosed
  | none => if isRegister (String.ofList cs) then register else plain

/-- Whether an operand of this shape is a register or indexed, and so no expression. -/
def isRegisterForm : Shape → Bool
  | register | indexed _ _ => true
  | enclosed | plain => false

end Shape

end Operand

/-- An operand of a source line. -/
structure Operand where
  /-- The text as it is written, without the blanks around it. -/
  text : String
  /-- The text without any blanks and in lower case. -/
  compact : String
  shape : Operand.Shape
  deriving DecidableEq, Repr

namespace Operand

/-- The operand that a piece of a source line is. -/
def ofText (text : String) : Operand :=
  let text := Text.trimmed text
  let compact := compactChars text
  ⟨text, String.ofList compact, .ofCompact compact⟩

/-- The compact text between the parentheses that enclose an operand. -/
def inner? (operand : Operand) : Option String :=
  (enclosed? operand.compact.toList).map String.ofList

/-- Whether one pair of parentheses encloses an operand. -/
def isWrapped (operand : Operand) : Bool :=
  operand.inner?.isSome

end Operand

end Z80
