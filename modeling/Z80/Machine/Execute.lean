import Z80.Machine.Basic

/-!
# Executing operations

What each operation does to a machine, given its operand bytes and the address behind the
instruction.  Every operation has an outcome in every state.

## Main definitions

* `Z80.Flow` — where control goes.
* `Z80.Outcome` — the machine behind an operation, where control goes, and what the board reports.
* `Z80.Machine.blockStep` — one round of a block instruction.
* `Z80.Machine.execute` — the outcome of an operation.
-/

namespace Z80

/-- Where control goes behind an instruction. -/
inductive Flow where
  /-- To the next instruction. -/
  | next
  /-- To an address. -/
  | jump (target : UInt16)
  /-- To the same instruction once more. -/
  | again
  /-- To the next instruction, but not before an interrupt. -/
  | halt
  deriving DecidableEq, Repr

/-- What an operation does. -/
structure Outcome (M : Type) where
  machine : Machine M
  flow : Flow
  events : List Event

/-- The outcome of an operation that passes control on and raises no event. -/
def Machine.passOn {M : Type} (m : Machine M) : Outcome M :=
  ⟨m, .next, []⟩

/-- The outcome of a transfer of control that may not take place. -/
def Machine.jumpIf {M : Type} (m : Machine M) (taken : Bool) (target : UInt16) : Outcome M :=
  ⟨m, if taken then .jump target else .next, []⟩

namespace Machine

variable {M : Type} [Bus M]

/-! ### Loads -/

/-- A register with a purpose of its own. -/
def control (r : Registers) : ControlReg → UInt8
  | .interrupt => r.i
  | .refresh => r.r

/-- The registers with such a register loaded from the accumulator. -/
def setControl (r : Registers) : ControlReg → Registers
  | .interrupt => { r with i := r.main.a }
  | .refresh => { r with r := r.main.a }

/-- The registers with the accumulator loaded from such a register.  The flags tell its sign,
whether it is zero, and the second interrupt flip-flop. -/
def fromControl (r : Registers) (source : ControlReg) : Registers :=
  let v := control r source
  let flags := r.flags.withResult v
  r.setResult (v, { flags with parity := r.iff2, half := false, subtract := false })

/-- The machine with a register and the word on top of the stack exchanged. -/
def exchangeTop (m : Machine M) (register : WordReg) : Machine M :=
  let sp := m.registers.sp
  let top := m.readWord sp
  let w := m.registers.word register
  (m.writeWord sp w).mapRegisters (·.setWord register top)

/-! ### Arithmetic -/

/-- The machine with the result of an operation of the accumulator. -/
def arithmetic (m : Machine M) (op : Arithmetic) (v : UInt8) : Machine M :=
  m.mapRegisters fun r => r.setResult (op.apply r.flags.carry r.main.a v)

/-- The machine with a result and its flags put at a place. -/
def putResult (m : Machine M) (operands : Operands) (place : Place) (result : UInt8 × Flags) :
    Machine M :=
  (m.mapRegisters (·.setFlags result.2)).put operands place result.1

/-- The registers with a word and flags. -/
def setWordResult (r : Registers) (register : WordReg) (result : UInt16 × Flags) : Registers :=
  (r.setFlags result.2).setWord register result.1

/-- The registers with the accumulator complemented. -/
def complement (r : Registers) : Registers :=
  r.setResult (~~~ r.main.a, { r.flags with half := true, subtract := true })

/-- The registers with the accumulator rotated.  Sign, zero and parity stay as they were. -/
def rotateAccumulator (r : Registers) (shift : Shift) : Registers :=
  let (result, out) := shift.apply r.flags.carry r.main.a
  r.setResult (result, { r.flags with carry := out, half := false, subtract := false })

/-! ### Bits and digits -/

/-- The machine with a byte put at a place and, if one is named, in a register. -/
def putCopy (m : Machine M) (operands : Operands) (place : Place) (copy : Option ByteReg)
    (v : UInt8) : Machine M :=
  match copy with
  | some register => (m.put operands place v).mapRegisters (·.setByte register v)
  | none => m.put operands place v

/-- The machine with the digits of the accumulator's low half and of the cell at `hl` rotated. -/
def rotateDigits (m : Machine M) (upward : Bool) : Machine M :=
  let address := m.registers.word .hl
  let v := m.read address
  let a := m.registers.main.a
  let cell := if upward then (v <<< 4) ||| (a &&& 0x0F) else (a <<< 4) ||| (v >>> 4)
  let digit := if upward then v >>> 4 else v &&& 0x0F
  let result := (a &&& 0xF0) ||| digit
  (m.write address cell).mapRegisters fun r =>
    r.setResult (result, { r.flags.withParity result with half := false, subtract := false })

/-! ### Ports -/

/-- The flags behind a byte read from a port. -/
def inputFlags (f : Flags) (v : UInt8) : Flags :=
  { f.withParity v with half := false, subtract := false }

/-- A read of the port that `c` selects. -/
def inputFrom (m : Machine M) (target : Option ByteReg) : Outcome M :=
  let (v, events) := m.input m.registers.main.c
  let m := m.mapRegisters fun r => r.setFlags (inputFlags r.flags v)
  match target with
  | some register => ⟨m.mapRegisters (·.setByte register v), .next, events⟩
  | none => ⟨m, .next, events⟩

/-- A write to a port. -/
def outputTo (m : Machine M) (port v : UInt8) : Outcome M :=
  let (m, events) := m.output port v
  ⟨m, .next, events⟩

/-! ### Block instructions -/

/-- An address moved on by one, up or down. -/
def moved (downward : Bool) (address : UInt16) : UInt16 :=
  if downward then address - 1 else address + 1

/-- The registers with `bc` counted down, and flags. -/
def countWord (r : Registers) (flags : Flags) : Registers :=
  let count := r.word .bc - 1
  (r.setWord .bc count).setFlags { flags with parity := count != 0 }

/-- The registers with `b` counted down, and the flags that say so. -/
def countByte (r : Registers) : Registers :=
  let count := r.main.b - 1
  (r.setByte .b count).setFlags { r.flags with zero := count = 0, subtract := true }

/-- One round of a block instruction, and whether there is another. -/
def blockStep (m : Machine M) (kind : BlockKind) (downward : Bool) :
    Machine M × Bool × List Event :=
  let hl := m.registers.word .hl
  match kind with
  | .copy =>
    let de := m.registers.word .de
    let v := m.read hl
    let m := (m.write de v).mapRegisters fun r =>
      let r := (r.setWord .hl (moved downward hl)).setWord .de (moved downward de)
      countWord r { r.flags with half := false, subtract := false }
    let more := m.registers.flags.parity
    (m, more, [])
  | .compare =>
    let v := m.read hl
    let m := m.mapRegisters fun r =>
      let (_, flags) := sub8 r.main.a v false
      countWord (r.setWord .hl (moved downward hl)) { flags with carry := r.flags.carry }
    let more := m.registers.flags.parity && !m.registers.flags.zero
    (m, more, [])
  | .input =>
    let (v, events) := m.input m.registers.main.c
    let m := (m.write hl v).mapRegisters fun r => countByte (r.setWord .hl (moved downward hl))
    let more := !m.registers.flags.zero
    (m, more, events)
  | .output =>
    let v := m.read hl
    let port := m.registers.main.c
    let m := m.mapRegisters fun r => countByte (r.setWord .hl (moved downward hl))
    let (m, events) := m.output port v
    let more := !m.registers.flags.zero
    (m, more, events)

/-- A block instruction: it is executed again as long as there is another round. -/
def block (m : Machine M) (kind : BlockKind) (downward repeats : Bool) : Outcome M :=
  let (m, more, events) := m.blockStep kind downward
  ⟨m, if repeats && more then .again else .next, events⟩

/-! ### Transfers of control -/

/-- A call, which leaves the address of the next instruction on the stack. -/
def callIf (m : Machine M) (taken : Bool) (target next : UInt16) : Outcome M :=
  if taken then ⟨m.pushWord next, .jump target, []⟩ else m.passOn

/-- A return to the address on top of the stack. -/
def returnIf (m : Machine M) (taken : Bool) : Outcome M :=
  if taken then
    let (target, m) := m.popWord
    ⟨m, .jump target, []⟩
  else m.passOn

/-- The machine with `b` counted down, which jumps unless `b` is zero. -/
def loop (m : Machine M) (target : UInt16) : Outcome M :=
  let count := m.registers.main.b - 1
  (m.mapRegisters (·.setByte .b count)).jumpIf (count != 0) target

/-! ### All operations -/

/-- The outcome of an operation, given its operand bytes and the address behind the instruction. -/
def execute (m : Machine M) (op : Operation) (operands : Operands) (next : UInt16) : Outcome M :=
  let relative := next + signExtend operands.byte
  match op with
  | .nop => m.passOn
  | .halt => ⟨m, .halt, []⟩
  | .disableInterrupts => (m.mapRegisters ({ · with iff1 := false, iff2 := false })).passOn
  | .enableInterrupts => (m.mapRegisters ({ · with iff1 := true, iff2 := true })).passOn
  | .interruptMode mode => (m.mapRegisters ({ · with mode })).passOn
  | .load target source =>
    let v := m.byteFrom operands source
    (m.put operands target v).passOn
  | .loadWord target source =>
    let w := m.wordFrom operands source
    (m.mapRegisters (·.setWord target w)).passOn
  | .storeWord source =>
    let w := m.registers.word source
    (m.writeWord operands.word w).passOn
  | .loadControl target => (m.mapRegisters (setControl · target)).passOn
  | .storeControl source => (m.mapRegisters (fromControl · source)).passOn
  | .push source =>
    let w := m.registers.word source
    (m.pushWord w).passOn
  | .pop target =>
    let (w, m) := m.popWord
    (m.mapRegisters (·.setWord target w)).passOn
  | .exchangeAf => (m.mapRegisters Registers.exchangeAf).passOn
  | .exchangeGeneral => (m.mapRegisters Registers.exchangeGeneral).passOn
  | .exchangeDeHl => (m.mapRegisters Registers.exchangeDeHl).passOn
  | .exchangeTop register => (m.exchangeTop register).passOn
  | .arithmetic op source =>
    let v := m.byteFrom operands source
    (m.arithmetic op v).passOn
  | .increment place =>
    let result := increment8 m.registers.flags (m.get operands place)
    (m.putResult operands place result).passOn
  | .decrement place =>
    let result := decrement8 m.registers.flags (m.get operands place)
    (m.putResult operands place result).passOn
  | .addWord target source =>
    (m.mapRegisters fun r =>
      setWordResult r target (add16 r.flags (r.word target) (r.word source))).passOn
  | .adcWord source =>
    (m.mapRegisters fun r =>
      setWordResult r .hl (adc16 (r.word .hl) (r.word source) r.flags.carry)).passOn
  | .sbcWord source =>
    (m.mapRegisters fun r =>
      setWordResult r .hl (sbc16 (r.word .hl) (r.word source) r.flags.carry)).passOn
  | .incrementWord register =>
    (m.mapRegisters fun r => r.setWord register (r.word register + 1)).passOn
  | .decrementWord register =>
    (m.mapRegisters fun r => r.setWord register (r.word register - 1)).passOn
  | .decimalAdjust =>
    (m.mapRegisters fun r => r.setResult (decimalAdjust r.flags r.main.a)).passOn
  | .complement => (m.mapRegisters complement).passOn
  | .negate => (m.mapRegisters fun r => r.setResult (sub8 0 r.main.a false)).passOn
  | .setCarry =>
    (m.mapRegisters fun r =>
      r.setFlags { r.flags with carry := true, half := false, subtract := false }).passOn
  | .complementCarry =>
    (m.mapRegisters fun r =>
      r.setFlags { r.flags with
        carry := !r.flags.carry, half := r.flags.carry, subtract := false }).passOn
  | .rotateAccumulator shift => (m.mapRegisters (rotateAccumulator · shift)).passOn
  | .shift shift place copy =>
    let (v, flags) := shift.applyWithFlags m.registers.flags.carry (m.get operands place)
    ((m.mapRegisters (·.setFlags flags)).putCopy operands place copy v).passOn
  | .testBit n place =>
    let v := m.get operands place
    (m.mapRegisters fun r => r.setFlags (bitTestFlags r.flags n v)).passOn
  | .resetBit n place copy =>
    let v := m.get operands place &&& ~~~ bitMask n
    (m.putCopy operands place copy v).passOn
  | .setBit n place copy =>
    let v := m.get operands place ||| bitMask n
    (m.putCopy operands place copy v).passOn
  | .rotateDigits upward => (m.rotateDigits upward).passOn
  | .jump condition =>
    let taken := conditionHolds m.registers.flags condition
    m.jumpIf taken operands.word
  | .jumpTo register =>
    let target := m.registers.word register
    m.jumpIf true target
  | .jumpRelative condition =>
    let taken := conditionHolds m.registers.flags condition
    m.jumpIf taken relative
  | .loop => m.loop relative
  | .call condition =>
    let taken := conditionHolds m.registers.flags condition
    m.callIf taken operands.word next
  | .ret condition =>
    let taken := conditionHolds m.registers.flags condition
    m.returnIf taken
  | .returnFromInterrupt => (m.mapRegisters fun r => { r with iff1 := r.iff2 }).returnIf true
  | .restart address => m.callIf true address next
  | .inputDirect =>
    let (v, events) := m.input operands.byte
    ⟨m.mapRegisters (·.setByte .a v), .next, events⟩
  | .outputDirect =>
    let v := m.registers.main.a
    m.outputTo operands.byte v
  | .input target => m.inputFrom target
  | .output source =>
    let v := (source.map m.registers.byte).getD 0
    let port := m.registers.main.c
    m.outputTo port v
  | .block kind downward repeats => m.block kind downward repeats

end Machine

end Z80
