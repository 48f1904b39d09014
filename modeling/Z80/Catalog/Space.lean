import Z80.Operand.Index

/-!
# Encoding spaces

The first bytes of an instruction select one of seven spaces of 256 opcodes.  In the two spaces of
indexed bit operations the displacement stands between the prefix and the opcode.

## Main definitions

* `Z80.Space` — the seven spaces, with `Z80.Space.prefixBytes` and `Z80.Space.name`.
* `Z80.Space.select` — the space that the first two bytes of an instruction select.
* `Z80.Space.opcodeOffset` — where in an instruction its opcode byte stands.
-/

namespace Z80

/-- The spaces of opcodes. -/
inductive Space where
  | main
  | bit
  | index (index : Index)
  | misc
  | indexBit (index : Index)
  deriving DecidableEq, Repr

namespace Space

/-- All spaces, in the order of the catalog. -/
def all : List Space :=
  [main, bit, index .ix, index .iy, misc, indexBit .ix, indexBit .iy]

/-- The bytes in front of an instruction of a space. -/
def prefixBytes : Space → List UInt8
  | main => []
  | bit => [0xCB]
  | index i => [i.prefixByte]
  | misc => [0xED]
  | indexBit i => [i.prefixByte, 0xCB]

/-- The short name of a space in messages. -/
def name : Space → String
  | main => "main"
  | bit => "cb"
  | index .ix => "dd"
  | index .iy => "fd"
  | misc => "ed"
  | indexBit .ix => "ddcb"
  | indexBit .iy => "fdcb"

/-- The index register that the instructions of a space use. -/
def indexRegister? : Space → Option Index
  | index i | indexBit i => some i
  | main | bit | misc => none

/-- The number of bytes in front of the opcode byte. -/
def opcodeOffset : Space → Nat
  | main => 0
  | bit | index _ | misc => 1
  | indexBit _ => 3

/-- The number of bytes in front of the first operand byte that is not part of the opcode. -/
def operandOffset : Space → Nat
  | main => 1
  | bit | index _ | misc | indexBit _ => 2

/-- The space that the first byte of an instruction selects, together with the second. -/
def select (first second : UInt8) : Space :=
  if first = 0xCB then bit
  else if first = 0xED then misc
  else if first = 0xDD then if second = 0xCB then indexBit .ix else index .ix
  else if first = 0xFD then if second = 0xCB then indexBit .iy else index .iy
  else main

end Space

end Z80
