import Z80.Catalog.Mnemonic
import Z80.Catalog.Space
import Z80.Operand.Slot

/-!
# Descriptors of instructions

What the catalog says about one encoding: how it is written, how long it is, and how it passes
control on.  A descriptor holds the template and the encoding; everything else follows from them.

## Main definitions

* `Z80.Template` — a mnemonic and its operand slots, with `Z80.Template.text`.
* `Z80.Category` — the effect of an instruction on the flow of control.
* `Z80.Descriptor` — one encoding, with `Z80.Descriptor.size` and `Z80.Descriptor.opcode`.
-/

namespace Z80

/-- How an instruction is written: a mnemonic and the slots of its operands. -/
structure Template where
  mnemonic : Mnemonic
  slots : List Slot
  deriving DecidableEq, Repr

namespace Template

/-- The text of a template: the mnemonic and, after a blank, the slots with commas between. -/
def text (template : Template) : String :=
  if template.slots.isEmpty then template.mnemonic.name
  else template.mnemonic.name ++ " " ++ ",".intercalate (template.slots.map Slot.text)

/-- What a template accepts: two templates with equal signatures accept the same source text. -/
def signature (template : Template) : String :=
  template.mnemonic.name ++ " " ++ ",".intercalate (template.slots.map Slot.signature)

/-- The number of bytes that the operands take behind the opcode. -/
def width (template : Template) : Nat :=
  Slot.totalWidth template.slots

end Template

/-- The effects of instructions on the flow of control. -/
inductive Category where
  /-- Control falls through to the next instruction. -/
  | plain
  | conditionalJump
  | unconditionalJump
  | conditionalCall
  | unconditionalCall
  | unconditionalReturn
  | unconditionalRestart
  | halt
  /-- A return on a condition, which may leave the path or fall through. -/
  | other
  deriving DecidableEq, Repr

namespace Category

/-- The category of the instructions with a template: jumps and calls are conditional if a
condition stands in front of their target. -/
def ofTemplate (template : Template) : Category :=
  match template.mnemonic, template.slots.length with
  | .jp, 1 | .jr, 1 => unconditionalJump
  | .jp, 2 | .jr, 2 | .djnz, _ => conditionalJump
  | .call, 1 => unconditionalCall
  | .call, 2 => conditionalCall
  | .ret, 0 | .reti, _ | .retn, _ => unconditionalReturn
  | .ret, _ => other
  | .rst, _ => unconditionalRestart
  | .halt, _ => halt
  | _, _ => plain

end Category

/-- One encoding of an instruction. -/
structure Descriptor where
  space : Space
  /-- The opcode byte, which is the place of the encoding in its space. -/
  byte : UInt8
  template : Template
  /-- A second, undocumented way to write the instruction. -/
  alternate : Option Template
  /-- Whether this is a second encoding of an instruction that the assembler encodes otherwise. -/
  isDuplicate : Bool
  deriving DecidableEq, Repr

namespace Descriptor

/-- The prefix bytes and the opcode byte as one number. -/
def opcode (d : Descriptor) : Nat :=
  (d.space.prefixBytes ++ [d.byte]).foldl (fun n b => n * 256 + b.toNat) 0

/-- The number of bytes of the instruction. -/
def size (d : Descriptor) : Nat :=
  d.space.prefixBytes.length + 1 + d.template.width

/-- The effect of the instruction on the flow of control. -/
def category (d : Descriptor) : Category :=
  .ofTemplate d.template

end Descriptor

end Z80
