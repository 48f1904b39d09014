import Z80.Board.Basic
import Z80.Memory
import Z80.Operation.Fetch

/-!
# The machine

A processor with its memory and board.

## Main definitions

* `Z80.Machine` — registers, memory, board, and whether the processor is halted.
* `Z80.Machine.get`, `Z80.Machine.put` — the byte at a place that an instruction names.
* `Z80.Machine.pushWord`, `Z80.Machine.popWord` — the stack.
* `Z80.Machine.input`, `Z80.Machine.output` — accesses to ports, with what the board reports.
-/

namespace Z80

/-- A processor with its memory and board. -/
structure Machine (M : Type) where
  registers : Registers
  memory : M
  board : Board
  /-- Whether the processor waits for an interrupt. -/
  isHalted : Bool

/-- The address of a memory cell that an instruction with the given operand bytes names. -/
def Cell.address (r : Registers) (operands : Operands) : Cell → UInt16
  | pointed register => r.word register
  | indexed i => r.index i + operands.displacement
  | direct => operands.word

namespace Machine

variable {M : Type} [Bus M]

/-- A machine at power-on. -/
def start (memory : M) (config : Board.Config) : Machine M :=
  ⟨.zero, memory, .start config, false⟩

/-- The machine with other registers. -/
def mapRegisters : Machine M → (Registers → Registers) → Machine M
  | ⟨registers, memory, board, isHalted⟩, f => ⟨f registers, memory, board, isHalted⟩

/-- The byte in memory at an address. -/
def read (m : Machine M) (address : UInt16) : UInt8 :=
  Bus.read m.memory address

/-- The word in memory at an address. -/
def readWord (m : Machine M) (address : UInt16) : UInt16 :=
  Bus.readWord m.memory address

/-- The machine with a byte written to memory. -/
def write : Machine M → (address : UInt16) → (v : UInt8) → Machine M
  | ⟨registers, memory, board, isHalted⟩, address, v =>
    ⟨registers, Bus.write memory address v, board, isHalted⟩

/-- The machine with a word written to memory. -/
def writeWord : Machine M → (address w : UInt16) → Machine M
  | ⟨registers, memory, board, isHalted⟩, address, w =>
    ⟨registers, Bus.writeWord memory address w, board, isHalted⟩

/-- The byte at a place. -/
def get (m : Machine M) (operands : Operands) : Place → UInt8
  | .reg register => m.registers.byte register
  | .cell cell => m.read (cell.address m.registers operands)

/-- The machine with a byte put at a place. -/
def put (m : Machine M) (operands : Operands) : Place → UInt8 → Machine M
  | .reg register, v => m.mapRegisters (·.setByte register v)
  | .cell cell, v =>
    let address := cell.address m.registers operands
    m.write address v

/-- The byte that a source gives. -/
def byteFrom (m : Machine M) (operands : Operands) : ByteSource → UInt8
  | .place place => m.get operands place
  | .immediate => operands.byte

/-- The word that a source gives. -/
def wordFrom (m : Machine M) (operands : Operands) : WordSource → UInt16
  | .reg register => m.registers.word register
  | .immediate => operands.word
  | .direct => m.readWord operands.word

/-- The machine with a word on top of the stack. -/
def pushWord (m : Machine M) (w : UInt16) : Machine M :=
  let sp := m.registers.sp - 2
  (m.mapRegisters fun r => { r with sp }).writeWord sp w

/-- The machine without the word on top of the stack. -/
def dropWord (m : Machine M) : Machine M :=
  m.mapRegisters fun r => { r with sp := r.sp + 2 }

/-- The word on top of the stack, and the machine without it. -/
def popWord (m : Machine M) : UInt16 × Machine M :=
  let w := m.readWord m.registers.sp
  (w, m.dropWord)

/-- The byte that a port gives, and what the board reports. -/
def input (m : Machine M) (port : UInt8) : UInt8 × List Event :=
  let (v, event) := m.board.input port
  (v, event.toList)

/-- The machine with a byte written to a port, and what the board reports. -/
def output : Machine M → (port v : UInt8) → Machine M × List Event
  | ⟨registers, memory, board, isHalted⟩, port, v =>
    let (board, event) := board.output port v registers.i (Bus.readWord memory)
    (⟨registers, memory, board, isHalted⟩, event.toList)

end Machine

end Z80
