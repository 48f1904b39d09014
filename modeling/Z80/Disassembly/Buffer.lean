import Z80.AddressMap
import Z80.Catalog.Decode
import Z80.Word

/-!
# Instructions in a buffer

A buffer holds bytes from some address on, wrapping past the last address.  An instruction is in
it if all of its bytes are.

## Main definitions

* `Z80.Buffer` — at most 65536 bytes and the address of the first.
* `Z80.Instruction` — an instruction in its place: address, bytes and descriptor.
* `Z80.Buffer.decode?` — the instruction at an address of a buffer.
* `Z80.Instruction.values` — the operands of an instruction, with the values that its bytes give.
* `Z80.Instruction.target?` — where an instruction may jump or call, if its bytes say so.
-/

namespace Z80

/-- Bytes from an address on. -/
structure Buffer where
  base : UInt16
  bytes : Array UInt8
  size_le : bytes.size ≤ addressCount

namespace Buffer

/-- The buffer of the first 65536 of the given bytes. -/
def ofList (base : UInt16) (bytes : List UInt8) : Buffer where
  base := base
  bytes := (bytes.take addressCount).toArray
  size_le := by simp only [List.size_toArray, List.length_take]; omega

/-- The number of bytes. -/
def size (b : Buffer) : Nat :=
  b.bytes.size

/-- The number of bytes in front of an address, if that is in the buffer. -/
def offset (b : Buffer) (address : UInt16) : Nat :=
  (address - b.base).toNat

/-- The address behind a number of bytes. -/
def addressOf (b : Buffer) (offset : Nat) : UInt16 :=
  b.base + UInt16.ofNat offset

/-- The byte at an address. -/
def get? (b : Buffer) (address : UInt16) : Option UInt8 :=
  b.bytes[b.offset address]?

/-- Whether an address is in the buffer. -/
def contains (b : Buffer) (address : UInt16) : Bool :=
  b.offset address < b.size

/-- The byte at an address, 0 outside the buffer. -/
def read (b : Buffer) (address : UInt16) : UInt8 :=
  (b.get? address).getD 0

/-- The `count` bytes from an address on, if all are in the buffer. -/
def slice? (b : Buffer) (address : UInt16) : (count : Nat) → Option (List UInt8)
  | 0 => some []
  | count + 1 =>
    match b.get? address, b.slice? (address + 1) count with
    | some x, some xs => some (x :: xs)
    | _, _ => none

end Buffer

/-- An instruction in its place. -/
structure Instruction where
  address : UInt16
  bytes : List UInt8
  descriptor : Descriptor
  deriving DecidableEq, Repr

/-- The instruction at an address of a buffer, if all of its bytes are in it. -/
def Buffer.decode? (b : Buffer) (address : UInt16) : Option Instruction :=
  if b.contains address then
    match Descriptor.decode b.read address with
    | .ok d => (b.slice? address d.size).map fun bytes => ⟨address, bytes, d⟩
    | .error _ => none
  else none

/-- The operands of an instruction in its place. -/
inductive Value where
  /-- A register, condition or number that the template spells out. -/
  | text (text : String)
  | byte (b : UInt8)
  | word (w : UInt16)
  | port (b : UInt8)
  | address (w : UInt16)
  /-- The target of a relative jump. -/
  | relative (target : UInt16)
  | indexed (index : Index) (displacement : Int8)
  deriving DecidableEq, Repr

/-- The operand that the bytes give to a slot of an instruction that ends at `next`. -/
def Slot.value (next : UInt16) (bytes : List UInt8) : Slot → Value
  | named s => .text s
  | literal s => .text s
  | byte => .byte (bytes.headD 0)
  | port => .port (bytes.headD 0)
  | word => .word (wordOf (bytes.headD 0) (bytes.tail.headD 0))
  | address => .address (wordOf (bytes.headD 0) (bytes.tail.headD 0))
  | relative => .relative (next + signExtend (bytes.headD 0))
  | indexed i => .indexed i (bytes.headD 0).toInt8

/-- The operands that bytes give to slots, in their order. -/
def slotValues (next : UInt16) : List Slot → List UInt8 → List Value
  | [], _ => []
  | slot :: slots, bytes =>
    slot.value next bytes :: slotValues next slots (bytes.drop slot.width)

namespace Instruction

/-- The number of bytes. -/
def size (i : Instruction) : Nat :=
  i.bytes.length

/-- The address behind an instruction. -/
def next (i : Instruction) : UInt16 :=
  i.address + UInt16.ofNat i.size

/-- The effect on the flow of control. -/
def category (i : Instruction) : Category :=
  i.descriptor.category

/-- The operands with their values. -/
def values (i : Instruction) : List Value :=
  slotValues i.next i.descriptor.template.slots
    (i.bytes.drop i.descriptor.space.operandOffset)

/-- The word or target of a relative jump that comes first among operands. -/
def firstTarget? : List Value → Option UInt16
  | [] => none
  | .word w :: _ => some w
  | .relative target :: _ => some target
  | _ :: values => firstTarget? values

/-- Where a jump or call may lead, if its bytes say so. -/
def target? (i : Instruction) : Option UInt16 :=
  match i.category with
  | .conditionalJump | .unconditionalJump | .conditionalCall | .unconditionalCall =>
    firstTarget? i.values
  | _ => none

end Instruction

end Z80
