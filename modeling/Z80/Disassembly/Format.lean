import Z80.Disassembly.Buffer
import Z80.Text.Numeral

/-!
# Instructions as source text

Instructions and data are written the way the assembler reads them.

## Main definitions

* `Z80.Instruction.text` — an instruction as a statement, with labels for the targets that have
  one.
* `Z80.dataText` — bytes as a statement.
-/

namespace Z80

/-- A target relative to the instruction at an address. -/
def relativeText (address target : UInt16) : String :=
  let offset := (target - address).toInt16
  if offset = 0 then "$"
  else if 0 < offset then "$+" ++ Text.byteNumeral (target - address).toUInt8
  else "$-" ++ Text.byteNumeral (address - target).toUInt8

/-- An index register with a displacement. -/
def indexedText (index : Index) (displacement : Int8) : String :=
  let size := if displacement < 0 then (-displacement).toUInt8 else displacement.toUInt8
  "(" ++ index.name ++ (if displacement < 0 then "-" else "+") ++ Text.byteNumeral size ++ ")"

namespace Instruction

/-- An operand of an instruction as text.  A word is written as a label only if it is the target
of the instruction. -/
def valueText (i : Instruction) (label : UInt16 → Option String) : Value → String
  | .text s => s
  | .byte b => Text.byteNumeral b
  | .port b => "(" ++ Text.byteNumeral b ++ ")"
  | .address w => "(" ++ Text.wordNumeral w ++ ")"
  | .word w =>
    if i.target? = some w then (label w).getD (Text.wordNumeral w) else Text.wordNumeral w
  | .relative target => (label target).getD (relativeText i.address target)
  | .indexed index displacement => indexedText index displacement

/-- An instruction as a statement. -/
def text (i : Instruction) (label : UInt16 → Option String) : String :=
  let operands := i.values.map (i.valueText label)
  let mnemonic := i.descriptor.template.mnemonic.name
  if operands.isEmpty then mnemonic else mnemonic ++ " " ++ ",".intercalate operands

end Instruction

/-- Bytes as a statement. -/
def dataText (bytes : List UInt8) : String :=
  "db " ++ ",".intercalate (bytes.map Text.byteNumeral)

end Z80
