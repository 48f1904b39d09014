import Z80.Catalog.Table
import Z80.Expr.Eval
import Z80.Operand.Source

/-!
# Matching source instructions

A source instruction is a word and operands.  It denotes the one encoding whose template has that
mnemonic and whose slots accept the operands one by one; alternate templates are consulted where
no template proper matches.  Duplicate encodings are never chosen.

## Main definitions

* `Z80.Slot.accepts` — whether a slot accepts an operand.
* `Z80.candidates` — the encodings whose templates, or alternate templates, accept operands.
* `Z80.resolve` — the encoding that a source instruction denotes, or why there is none.
* `Z80.spacesRecognizing` — the spaces in which a mnemonic occurs.
-/

namespace Z80

/-- Whether a number that is spelled out in a template is the value of a source text. -/
def literalMatches (scope : Expr.Scope) (literal text : String) : Bool :=
  match Expr.evaluate (.bare 0) literal, Expr.evaluate scope text with
  | .ok expected, .ok actual => expected == actual
  | _, _ => false

/-- Whether a slot of an instruction accepts an operand.  What is spelled out must be written, up
to case and blanks; a number spelled out must be the value of the operand; a value goes without
parentheses, except with `cp`, and a value in memory goes in parentheses. -/
def Slot.accepts (scope : Expr.Scope) (mnemonic : Mnemonic) (operand : Operand) : Slot → Bool
  | named text => operand.compact == text
  | literal text => !operand.shape.isRegisterForm && literalMatches scope text operand.text
  | byte | word | relative =>
    match operand.shape with
    | .plain => true
    | .enclosed => mnemonic = .cp
    | .register | .indexed _ _ => false
  | port | address => operand.shape = .enclosed
  | indexed index =>
    match operand.shape with
    | .indexed written _ => written = index
    | _ => false

/-- Whether the slots of a template accept operands one by one. -/
def Template.accepts (template : Template) (scope : Expr.Scope) (operands : List Operand) : Bool :=
  template.slots.length == operands.length
    && (template.slots.zip operands).all fun (slot, operand) =>
      slot.accepts scope template.mnemonic operand

/-- One of the two ways to write an instruction. -/
def Descriptor.spelling? (d : Descriptor) (alternate : Bool) : Option Template :=
  if alternate then d.alternate else some d.template

/-- Whether an encoding can be chosen for a source instruction, by one of its spellings. -/
def Descriptor.isCandidate (scope : Expr.Scope) (mnemonic : Mnemonic) (operands : List Operand)
    (alternate : Bool) (d : Descriptor) : Bool :=
  !d.isDuplicate
    && match d.spelling? alternate with
      | some template => template.mnemonic = mnemonic && template.accepts scope operands
      | none => false

/-- The encodings that can be chosen for a source instruction, by their templates or by their
alternate templates. -/
def candidates (scope : Expr.Scope) (word : String) (operands : List Operand) (alternate : Bool) :
    List Descriptor :=
  match Mnemonic.ofText? word with
  | some mnemonic => Descriptor.all.filter (·.isCandidate scope mnemonic operands alternate)
  | none => []

/-- Whether an encoding is written with a mnemonic, in either way. -/
def Descriptor.uses (mnemonic : Mnemonic) (d : Descriptor) : Bool :=
  d.template.mnemonic = mnemonic || d.alternate.any fun template => template.mnemonic = mnemonic

/-- The spaces with an instruction that a word is the mnemonic of, in the order of the catalog. -/
def spacesRecognizing (word : String) : List Space :=
  match Mnemonic.ofText? word with
  | some mnemonic => Space.all.filter fun space => space.descriptors.any (·.uses mnemonic)
  | none => []

/-- Why a source instruction denotes no encoding. -/
inductive MatchError where
  /-- No template accepts the instruction; its mnemonic occurs in some spaces. -/
  | unknown (text : String) (recognizedIn : List Space)
  /-- Several templates accept the instruction. -/
  | ambiguous (text : String) (templates : List String)
  deriving DecidableEq, Repr

/-- The wording of a fault. -/
def MatchError.message : MatchError → String
  | unknown text [] => "unknown instruction '" ++ text ++ "'"
  | unknown text spaces =>
    "unknown instruction '" ++ text ++ "' (mnemonic found in "
      ++ "/".intercalate (spaces.map Space.name) ++ " table(s); check the operands)"
  | ambiguous text templates =>
    "ambiguous instruction '" ++ text ++ "' matches " ++ ", ".intercalate templates

/-- The encoding that a source instruction denotes. -/
structure Resolved where
  descriptor : Descriptor
  /-- The template that the source instruction matches. -/
  template : Template
  /-- Whether that is the alternate template. -/
  isAlternate : Bool
  deriving DecidableEq, Repr

/-- The text of a source instruction in messages. -/
def instructionText (word : String) (operands : List Operand) : String :=
  if operands.isEmpty then word
  else word ++ " " ++ ",".intercalate (operands.map Operand.text)

/-- The encoding that a source instruction denotes.  The alternate templates count only if no
template proper accepts the instruction. -/
def resolve (scope : Expr.Scope) (word : String) (operands : List Operand) :
    Except MatchError Resolved :=
  match candidates scope word operands false with
  | [d] => .ok ⟨d, d.template, false⟩
  | [] =>
    match candidates scope word operands true with
    | [d] => .ok ⟨d, (d.spelling? true).getD d.template, true⟩
    | [] => .error (.unknown (instructionText word operands) (spacesRecognizing word))
    | ds => .error (.ambiguous (instructionText word operands) (ds.map (·.template.text)))
  | ds => .error (.ambiguous (instructionText word operands) (ds.map (·.template.text)))

end Z80
