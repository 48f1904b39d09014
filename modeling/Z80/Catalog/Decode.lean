import Z80.Catalog.Table

/-!
# Decoding opcodes

The first byte of an instruction, and behind an index prefix the second, select the space; the
opcode byte stands right behind the prefix, or behind the displacement in the spaces of indexed
bit operations.  Addresses are words and wrap.

## Main definitions

* `Z80.Space.bytesAt` — the bytes of an instruction up to its opcode byte.
* `Z80.Descriptor.decode` — the descriptor of the instruction at an address, or the bytes that
  form no opcode.
-/

namespace Z80

/-- The `count` bytes from an address on. -/
def readBytes (read : UInt16 → UInt8) (address : UInt16) : (count : Nat) → List UInt8
  | 0 => []
  | count + 1 => read address :: readBytes read (address + 1) count

namespace Space

/-- The space of the instruction at an address. -/
def startingAt (read : UInt16 → UInt8) (address : UInt16) : Space :=
  select (read address) (read (address + 1))

/-- The opcode byte of the instruction at an address, in a space. -/
def opcodeAt (space : Space) (read : UInt16 → UInt8) (address : UInt16) : UInt8 :=
  read (address + UInt16.ofNat space.opcodeOffset)

/-- The bytes of the instruction at an address, in a space, up to its opcode byte. -/
def bytesAt (space : Space) (read : UInt16 → UInt8) (address : UInt16) : List UInt8 :=
  readBytes read address (space.opcodeOffset + 1)

end Space

/-- The descriptor of the instruction at an address.  Bytes that form no opcode are given up to
and including the byte that no instruction uses. -/
def Descriptor.decode (read : UInt16 → UInt8) (address : UInt16) :
    Except (List UInt8) Descriptor :=
  let space := Space.startingAt read address
  match lookup? space (space.opcodeAt read address) with
  | some d => .ok d
  | none => .error (space.bytesAt read address)

end Z80
