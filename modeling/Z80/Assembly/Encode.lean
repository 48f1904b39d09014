import Z80.Assembly.Fault
import Z80.Memory

/-!
# Encoding instructions

The bytes of an instruction are its prefix, its opcode, and the values of its operands in the
order of the template.  In the spaces of indexed bit operations the displacement comes before the
opcode.

## Main definitions

* `Z80.relativeByte` — the displacement byte of a relative jump.
* `Z80.Slot.encode` — the bytes of one operand.
* `Z80.Resolved.encode` — the bytes of an instruction.
-/

namespace Z80

/-- An offset as a byte, if it fits. -/
def offsetByte (offset : Int) : Except Fault UInt8 :=
  if 127 < offset then .error (.offsetTooLarge offset)
  else if offset < -128 then .error (.offsetTooSmall offset)
  else .ok (Int8.ofInt offset).toUInt8

/-- The displacement byte at the address `here` of a relative jump.  A text that depends on `$` or
on a name is the target of the jump, measured from behind the byte; any other text is the
displacement itself. -/
def relativeByte (scope : Expr.Scope) (here : UInt16) (text : String) : Except Fault UInt8 :=
  if Expr.isPositionDependent text then do
    let target ← liftExpr (Expr.evaluateWord scope text)
    offsetByte (target - here - 1).toInt16.toInt
  else do
    let offset ← liftExpr (Expr.evaluate scope text)
    offsetByte offset.toInt

/-- The displacement of an indexed operand, 0 if none is written. -/
def displacementByte (scope : Expr.Scope) (operand : Operand) : Except Fault UInt8 :=
  match operand.shape with
  | .indexed _ (some text) =>
    (liftExpr (Expr.evaluateDisplacement scope text)).map Int8.toUInt8
  | _ => .ok 0

/-- The bytes of an operand in a slot, the first of them at the address `here`. -/
def Slot.encode (scope : Expr.Scope) (here : UInt16) (operand : Operand) :
    Slot → Except Fault (List UInt8)
  | named _ | literal _ => .ok []
  | byte | port => (liftExpr (Expr.evaluateByte scope operand.text)).map ([·])
  | word | address =>
    (liftExpr (Expr.evaluateWord scope operand.text)).map fun w => [lowByte w, highByte w]
  | relative => (relativeByte scope here operand.text).map ([·])
  | indexed _ => (displacementByte scope operand).map ([·])

/-- The bytes of operands in their slots, the first of them at the address `here`. -/
def encodeOperands (scope : Expr.Scope) (here : UInt16) :
    List (Slot × Operand) → Except Fault (List UInt8)
  | [] => .ok []
  | (slot, operand) :: more => do
    let bytes ← slot.encode scope here operand
    let rest ← encodeOperands scope (here + UInt16.ofNat bytes.length) more
    return bytes ++ rest

/-- An instruction as bytes. -/
structure Encoding where
  bytes : List UInt8
  /-- The value of the first operand that is a byte. -/
  immediate : Option UInt8
  deriving DecidableEq, Repr

namespace Resolved

/-- The slots of the template that a source instruction matches, with its operands. -/
def filled (r : Resolved) (operands : List Operand) : List (Slot × Operand) :=
  r.template.slots.zip operands

/-- The value of the first operand that is a byte. -/
def immediate? (r : Resolved) (scope : Expr.Scope) (operands : List Operand) : Option UInt8 :=
  match (r.filled operands).find? fun filled => filled.1 = .byte with
  | some (_, operand) => (Expr.evaluateByte scope operand.text).toOption
  | none => none

/-- The bytes in front of the operands: the prefix, and the opcode if it comes first. -/
def head (r : Resolved) : List UInt8 :=
  match r.descriptor.space with
  | .indexBit _ => r.descriptor.space.prefixBytes
  | space => space.prefixBytes ++ [r.descriptor.byte]

/-- The bytes behind the operands: the opcode, if it comes last. -/
def tail (r : Resolved) : List UInt8 :=
  match r.descriptor.space with
  | .indexBit _ => [r.descriptor.byte]
  | _ => []

/-- The bytes of an instruction that stands at the location of a scope. -/
def encode (r : Resolved) (scope : Expr.Scope) (operands : List Operand) :
    Except Fault Encoding := do
  let bytes ←
    encodeOperands scope (scope.here + UInt16.ofNat r.head.length) (r.filled operands)
  return ⟨r.head ++ bytes ++ r.tail, r.immediate? scope operands⟩

end Resolved

end Z80
