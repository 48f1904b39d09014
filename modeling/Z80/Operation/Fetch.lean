import Z80.Operation.Decode

/-!
# Fetching operand bytes

The bytes that follow an opcode are a displacement, if the operation is indexed, and then a byte or
a word.  In the spaces of indexed bit operations the displacement stands in front of the opcode,
which is then the last byte of the instruction.

## Main definitions

* `Z80.Operands` — the values of the bytes that follow an opcode.
* `Z80.Operation.fetch` — those values, and the address behind them.
* `Z80.Space.behind` — the address behind an instruction, given that behind its operand bytes.
-/

namespace Z80

/-- The values of the bytes that follow an opcode. -/
structure Operands where
  /-- The displacement, its sign extended. -/
  displacement : UInt16
  byte : UInt8
  word : UInt16
  deriving DecidableEq, Repr

namespace Operation

/-- The displacement at an address, if the operation has one, and the address behind it. -/
def fetchDisplacement (op : Operation) (read : UInt16 → UInt8) (address : UInt16) :
    UInt16 × UInt16 :=
  if op.isIndexed then (signExtend (read address), address + 1) else (0, address)

/-- The operand bytes of an operation that start at an address, and the address behind them. -/
def fetch (op : Operation) (read : UInt16 → UInt8) (address : UInt16) : Operands × UInt16 :=
  let (displacement, address) := op.fetchDisplacement read address
  match op.immediate with
  | .absent => (⟨displacement, 0, 0⟩, address)
  | .byte => (⟨displacement, read address, 0⟩, address + 1)
  | .word => (⟨displacement, 0, wordOf (read address) (read (address + 1))⟩, address + 2)

end Operation

/-- The address of the operand bytes of the instruction at an address. -/
def Space.operandsAt (space : Space) (address : UInt16) : UInt16 :=
  address + UInt16.ofNat space.operandOffset

/-- The address behind an instruction whose operand bytes end in front of an address. -/
def Space.behind (space : Space) (address : UInt16) : UInt16 :=
  match space with
  | .indexBit _ => address + 1
  | _ => address

end Z80
