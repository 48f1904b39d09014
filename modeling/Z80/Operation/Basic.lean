import Z80.Arithmetic
import Z80.Registers

/-!
# Operations

What instructions do, apart from how they are written and encoded.  An operation names its
operands: registers, memory cells, and the bytes that follow the opcode.

## Main definitions

* `Z80.Cell`, `Z80.Place`, `Z80.ByteSource`, `Z80.WordSource` — operands.
* `Z80.Operation` — the operations.
* `Z80.Operation.isIndexed`, `Z80.Operation.immediate` — which bytes follow the opcode.
-/

namespace Z80

/-- A memory cell that an instruction names. -/
inductive Cell where
  /-- The cell that a register points to. -/
  | pointed (register : WordReg)
  /-- The cell at a displacement from where an index register points. -/
  | indexed (index : Index)
  /-- The cell whose address follows the opcode. -/
  | direct
  deriving DecidableEq, Repr

/-- Where a byte can be read and written. -/
inductive Place where
  | reg (register : ByteReg)
  | cell (cell : Cell)
  deriving DecidableEq, Repr

/-- Where a byte can be read. -/
inductive ByteSource where
  | place (place : Place)
  /-- The byte that follows the opcode. -/
  | immediate
  deriving DecidableEq, Repr

/-- Where a word can be read. -/
inductive WordSource where
  | reg (register : WordReg)
  /-- The word that follows the opcode. -/
  | immediate
  /-- The word at the address that follows the opcode. -/
  | direct
  deriving DecidableEq, Repr

/-- The registers with a purpose of their own. -/
inductive ControlReg where
  | interrupt | refresh
  deriving DecidableEq, Repr

/-- What a block instruction does with each byte. -/
inductive BlockKind where
  /-- Copies it from where `hl` points to where `de` points. -/
  | copy
  /-- Compares the accumulator with it. -/
  | compare
  /-- Stores it from a port. -/
  | input
  /-- Writes it to a port. -/
  | output
  deriving DecidableEq, Repr

/-- What an instruction does. -/
inductive Operation where
  | nop
  | halt
  | disableInterrupts
  | enableInterrupts
  | interruptMode (mode : InterruptMode)
  | load (target : Place) (source : ByteSource)
  | loadWord (target : WordReg) (source : WordSource)
  /-- Stores a register at the address that follows the opcode. -/
  | storeWord (source : WordReg)
  | loadControl (target : ControlReg)
  | storeControl (source : ControlReg)
  | push (source : WordReg)
  | pop (target : WordReg)
  | exchangeAf
  | exchangeGeneral
  | exchangeDeHl
  /-- Exchanges a register with the word at the top of the stack. -/
  | exchangeTop (register : WordReg)
  | arithmetic (op : Arithmetic) (source : ByteSource)
  | increment (place : Place)
  | decrement (place : Place)
  | addWord (target source : WordReg)
  | adcWord (source : WordReg)
  | sbcWord (source : WordReg)
  | incrementWord (register : WordReg)
  | decrementWord (register : WordReg)
  | decimalAdjust
  | complement
  | negate
  | setCarry
  | complementCarry
  | rotateAccumulator (shift : Shift)
  | shift (shift : Shift) (place : Place) (copy : Option ByteReg)
  | testBit (n : Fin 8) (place : Place)
  | resetBit (n : Fin 8) (place : Place) (copy : Option ByteReg)
  | setBit (n : Fin 8) (place : Place) (copy : Option ByteReg)
  /-- Rotates the digits of the accumulator's low half and of a byte, upward or downward. -/
  | rotateDigits (upward : Bool)
  | jump (condition : Option Condition)
  | jumpTo (register : WordReg)
  | jumpRelative (condition : Option Condition)
  /-- Counts `b` down and jumps unless it is zero. -/
  | loop
  | call (condition : Option Condition)
  | ret (condition : Option Condition)
  /-- Returns and restores the first interrupt flip-flop. -/
  | returnFromInterrupt
  | restart (address : UInt16)
  /-- Reads the port whose number follows the opcode into the accumulator. -/
  | inputDirect
  /-- Writes the accumulator to the port whose number follows the opcode. -/
  | outputDirect
  /-- Reads the port that `c` selects, into a register or for the flags alone. -/
  | input (target : Option ByteReg)
  /-- Writes a register, or zero, to the port that `c` selects. -/
  | output (source : Option ByteReg)
  | block (kind : BlockKind) (downward repeats : Bool)
  deriving DecidableEq, Repr

/-! ### Bytes behind the opcode -/

/-- What follows an opcode besides a displacement. -/
inductive Immediate where
  | absent | byte | word
  deriving DecidableEq, Repr

/-- The number of bytes that follow an opcode besides a displacement. -/
def Immediate.width : Immediate → Nat
  | absent => 0
  | byte => 1
  | word => 2

/-- Whether a place is indexed, so that a displacement follows the opcode. -/
def Place.isIndexed : Place → Bool
  | cell (.indexed _) => true
  | _ => false

/-- Whether a source is indexed. -/
def ByteSource.isIndexed : ByteSource → Bool
  | place p => p.isIndexed
  | immediate => false

/-- What follows the opcode for a place. -/
def Place.immediate : Place → Immediate
  | cell .direct => .word
  | _ => .absent

/-- What follows the opcode for a source. -/
def ByteSource.needs : ByteSource → Immediate
  | place p => p.immediate
  | immediate => .byte

/-- What follows the opcode for a source of a word. -/
def WordSource.needs : WordSource → Immediate
  | reg _ => .absent
  | immediate | direct => .word

namespace Operation

/-- Whether a displacement follows the opcode of an operation. -/
def isIndexed : Operation → Bool
  | load target source => target.isIndexed || source.isIndexed
  | arithmetic _ source => source.isIndexed
  | increment place | decrement place => place.isIndexed
  | shift _ place _ | testBit _ place | resetBit _ place _ | setBit _ place _ => place.isIndexed
  | _ => false

/-- What else follows the opcode of an operation. -/
def immediate : Operation → Immediate
  | load (.cell .direct) _ => .word
  | load _ source => source.needs
  | loadWord _ source => source.needs
  | storeWord _ => .word
  | arithmetic _ source => source.needs
  | jump _ | call _ => .word
  | jumpRelative _ | loop => .byte
  | inputDirect | outputDirect => .byte
  | _ => .absent

end Operation

end Z80
