import Z80.Operand.Index
import Z80.Text.Fold

/-!
# Operand slots

A template of an instruction, such as `ld a,(ix+o)`, names its operands by slots.  A slot either
stands for a value that is encoded behind the opcode, or is spelled out and part of the opcode.

| Text               | Slot                 | Encoded as              |
|--------------------|----------------------|-------------------------|
| `n`                | `Slot.byte`          | one byte                |
| `nn`               | `Slot.word`          | low byte, high byte     |
| `o`                | `Slot.relative`      | signed byte             |
| `(n)`              | `Slot.port`          | one byte                |
| `(nn)`             | `Slot.address`       | low byte, high byte     |
| `(ix+o)`, `(iy+o)` | `Slot.indexed`       | signed byte             |
| digits first       | `Slot.literal`       | nothing                 |
| anything else      | `Slot.named`         | nothing                 |

## Main definitions

* `Z80.Slot` — the slots, with `Z80.Slot.text` and its reading `Z80.Slot.classify`.
* `Z80.Slot.width`, `Z80.Slot.totalWidth` — the number of bytes that a slot, or a list of slots,
  takes behind the opcode.
* `Z80.Slot.signature` — what a slot accepts, with expressions of every width alike.
-/

namespace Z80

/-- The operands of a template. -/
inductive Slot where
  /-- A register, condition or memory form that is spelled out. -/
  | named (text : String)
  /-- A number that is spelled out and part of the opcode. -/
  | literal (text : String)
  | byte
  | word
  | relative
  | port
  | address
  | indexed (index : Index)
  deriving DecidableEq, Repr

namespace Slot

/-- The text of a slot in a template. -/
def text : Slot → String
  | named text => text
  | literal text => text
  | byte => "n"
  | word => "nn"
  | relative => "o"
  | port => "(n)"
  | address => "(nn)"
  | indexed .ix => "(ix+o)"
  | indexed .iy => "(iy+o)"

/-- The slots that stand for a value. -/
def encoded : List Slot :=
  [byte, word, relative, port, address, indexed .ix, indexed .iy]

/-- Whether a text starts with a decimal digit. -/
def startsWithDigit (text : String) : Bool :=
  text.toList.head?.any Char.isDigit

/-- The slot that a text stands for in a template. -/
def classify (text : String) : Slot :=
  match encoded.find? fun slot => slot.text = text with
  | some slot => slot
  | none => if startsWithDigit text then literal text else named text

/-- The number of bytes that a slot takes behind the opcode. -/
def width : Slot → Nat
  | named _ | literal _ => 0
  | byte | port | relative | indexed _ => 1
  | word | address => 2

/-- The number of bytes that slots take behind the opcode. -/
def totalWidth : List Slot → Nat
  | [] => 0
  | slot :: slots => slot.width + totalWidth slots

/-- What a slot accepts: two templates with equal signatures accept the same source text. -/
def signature : Slot → String
  | named text => text
  | literal text => "#" ++ Text.lower text
  | byte | word | relative => "<expr>"
  | port | address => "(<expr>)"
  | indexed index => "(" ++ index.name ++ "+<expr>)"

end Slot

end Z80
