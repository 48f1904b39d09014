import Z80.Catalog.Decode
import Z80.Catalog.Fields
import Z80.Operation.Basic

/-!
# Operations by opcode

The operation of each opcode, by the bit fields of its byte.  Behind an index prefix the index
register takes the place of `hl`, its halves that of `h` and `l`, and the indexed cell that of the
cell at `hl`; but next to the indexed cell `h` and `l` are themselves.

## Main definitions

* `Z80.Operation.main`, `bit`, `misc`, `index`, `indexBit` — the operation of a byte in each space.
* `Z80.Operation.ofOpcode?` — the operation of a byte in a space, if there is one.
-/

namespace Z80

/-! ### Operands by field -/

/-- The byte register that a field selects; one field selects memory. -/
def ByteReg.ofField? : Fin 8 → Option ByteReg
  | 0 => some b
  | 1 => some c
  | 2 => some d
  | 3 => some e
  | 4 => some h
  | 5 => some l
  | 6 => none
  | 7 => some a

/-- The register or memory cell that a field selects. -/
def Place.ofField (f : Fin 8) : Place :=
  match ByteReg.ofField? f with
  | some register => reg register
  | none => cell (.pointed .hl)

/-- The register or memory cell that a field selects behind the prefix of an index register. -/
def Place.ofIndexField (i : Index) : Fin 8 → Place
  | 4 => reg (.half i true)
  | 5 => reg (.half i false)
  | 6 => cell (.indexed i)
  | f => ofField f

/-- The word register that a field selects. -/
def WordReg.ofField : Fin 4 → WordReg
  | 0 => bc
  | 1 => de
  | 2 => hl
  | 3 => sp

/-- The word register that a field of a stack instruction selects. -/
def WordReg.ofStackField : Fin 4 → WordReg
  | 3 => af
  | p => ofField p

/-- The word register that a field selects behind the prefix of an index register. -/
def WordReg.ofIndexField (i : Index) : Fin 4 → WordReg
  | 2 => index i
  | p => ofField p

/-- The condition that a field selects. -/
def Condition.ofField : Fin 8 → Condition
  | 0 => nonzero
  | 1 => zero
  | 2 => noCarry
  | 3 => carry
  | 4 => parityOdd
  | 5 => parityEven
  | 6 => positive
  | 7 => negative

/-- The arithmetic or logical operation that a field selects. -/
def Arithmetic.ofField : Fin 8 → Arithmetic
  | 0 => add
  | 1 => adc
  | 2 => sub
  | 3 => sbc
  | 4 => and
  | 5 => xor
  | 6 => or
  | 7 => cp

/-- The rotation or shift that a field selects. -/
def Shift.ofField : Fin 8 → Shift
  | 0 => rlc
  | 1 => rrc
  | 2 => rl
  | 3 => rr
  | 4 => sla
  | 5 => sra
  | 6 => sll
  | 7 => srl

/-- The interrupt mode that a field selects. -/
def InterruptMode.ofField : Fin 8 → InterruptMode
  | 2 | 6 => mode1
  | 3 | 7 => mode2
  | _ => mode0

/-- The kind of block instruction that a field selects; only the lower half is in use. -/
def BlockKind.ofField? : Fin 8 → Option BlockKind
  | 0 => some copy
  | 1 => some compare
  | 2 => some input
  | 3 => some output
  | _ => none

namespace Operation

/-! ### Without a prefix -/

/-- A load of the accumulator from a memory cell. -/
def loadAccumulator (cell : Cell) : Operation :=
  load (.reg .a) (.place (.cell cell))

/-- A load of a memory cell from the accumulator. -/
def storeAccumulator (cell : Cell) : Operation :=
  load (.cell cell) (.place (.reg .a))

/-- The operations of the accumulator alone, by field. -/
def onAccumulator : Fin 8 → Operation
  | 4 => decimalAdjust
  | 5 => complement
  | 6 => setCarry
  | 7 => complementCarry
  | y => rotateAccumulator (.ofField y)

/-- The operations without a prefix, first quarter. -/
def mainLow (f : Fields) : Operation :=
  match f.z with
  | 0 =>
    match f.y with
    | 0 => nop
    | 1 => exchangeAf
    | 2 => loop
    | 3 => jumpRelative none
    | 4 => jumpRelative (some .nonzero)
    | 5 => jumpRelative (some .zero)
    | 6 => jumpRelative (some .noCarry)
    | 7 => jumpRelative (some .carry)
  | 1 =>
    match f.q with
    | 0 => loadWord (.ofField f.p) .immediate
    | 1 => addWord .hl (.ofField f.p)
  | 2 =>
    match f.p, f.q with
    | 0, 0 => storeAccumulator (.pointed .bc)
    | 0, 1 => loadAccumulator (.pointed .bc)
    | 1, 0 => storeAccumulator (.pointed .de)
    | 1, 1 => loadAccumulator (.pointed .de)
    | 2, 0 => storeWord .hl
    | 2, 1 => loadWord .hl .direct
    | 3, 0 => storeAccumulator .direct
    | 3, 1 => loadAccumulator .direct
  | 3 =>
    match f.q with
    | 0 => incrementWord (.ofField f.p)
    | 1 => decrementWord (.ofField f.p)
  | 4 => increment (.ofField f.y)
  | 5 => decrement (.ofField f.y)
  | 6 => load (.ofField f.y) .immediate
  | 7 => onAccumulator f.y

/-- The operations without a prefix, last quarter. -/
def mainHigh (f : Fields) : Option Operation :=
  match f.z with
  | 0 => ret (some (.ofField f.y))
  | 1 =>
    match f.q, f.p with
    | 0, p => pop (.ofStackField p)
    | 1, 0 => ret none
    | 1, 1 => exchangeGeneral
    | 1, 2 => jumpTo .hl
    | 1, 3 => loadWord .sp (.reg .hl)
  | 2 => jump (some (.ofField f.y))
  | 3 =>
    match f.y with
    | 0 => jump none
    | 1 => none
    | 2 => outputDirect
    | 3 => inputDirect
    | 4 => exchangeTop .hl
    | 5 => exchangeDeHl
    | 6 => disableInterrupts
    | 7 => enableInterrupts
  | 4 => call (some (.ofField f.y))
  | 5 =>
    match f.q, f.p with
    | 0, p => push (.ofStackField p)
    | 1, 0 => call none
    | 1, _ => none
  | 6 => arithmetic (.ofField f.y) .immediate
  | 7 => restart (UInt16.ofNat (f.y.val * 8))

/-- The operation of an opcode without a prefix. -/
def main (b : UInt8) : Option Operation :=
  let f := Fields.ofByte b
  match f.x with
  | 0 => mainLow f
  | 1 => if b = 0x76 then halt else load (.ofField f.y) (.place (.ofField f.z))
  | 2 => arithmetic (.ofField f.y) (.place (.ofField f.z))
  | 3 => mainHigh f

/-! ### Behind a prefix -/

/-- An operation on single bits or by one bit. -/
def onBits (f : Fields) (place : Place) (copy : Option ByteReg) : Operation :=
  match f.x with
  | 0 => shift (.ofField f.y) place copy
  | 1 => testBit f.y place
  | 2 => resetBit f.y place copy
  | 3 => setBit f.y place copy

/-- The operation of an opcode behind `CB`. -/
def bit (b : UInt8) : Operation :=
  let f := Fields.ofByte b
  onBits f (.ofField f.z) none

/-- The operation of an opcode behind an index prefix and `CB`: it works on the indexed cell, and
its result goes to a register as well unless the field selects memory. -/
def indexBit (i : Index) (b : UInt8) : Operation :=
  let f := Fields.ofByte b
  onBits f (.cell (.indexed i)) (ByteReg.ofField? f.z)

/-- The operations behind `ED`, second quarter. -/
def miscLow (f : Fields) : Option Operation :=
  match f.z with
  | 0 => input (ByteReg.ofField? f.y)
  | 1 => output (ByteReg.ofField? f.y)
  | 2 =>
    match f.q with
    | 0 => sbcWord (.ofField f.p)
    | 1 => adcWord (.ofField f.p)
  | 3 =>
    match f.q with
    | 0 => storeWord (.ofField f.p)
    | 1 => loadWord (.ofField f.p) .direct
  | 4 => negate
  | 5 => returnFromInterrupt
  | 6 => interruptMode (.ofField f.y)
  | 7 =>
    match f.y with
    | 0 => loadControl .interrupt
    | 1 => loadControl .refresh
    | 2 => storeControl .interrupt
    | 3 => storeControl .refresh
    | 4 => rotateDigits false
    | 5 => rotateDigits true
    | _ => none

/-- The operation of an opcode behind `ED`. -/
def misc (b : UInt8) : Option Operation :=
  let f := Fields.ofByte b
  match f.x with
  | 1 => miscLow f
  | 2 =>
    if 4 ≤ f.y.val then
      (BlockKind.ofField? f.z).map fun kind => block kind (f.q.val = 1) (6 ≤ f.y.val)
    else none
  | _ => none

/-- Whether a field selects something else behind an index prefix than without one. -/
def isIndexField (f : Fin 8) : Bool :=
  Fields.isHalf f || Fields.isMemory f

/-- The operations behind an index prefix, first quarter. -/
def indexLow (i : Index) (f : Fields) : Option Operation :=
  match f.z, f.q, f.p with
  | 1, 0, 2 => loadWord (.index i) .immediate
  | 1, 1, p => addWord (.index i) (.ofIndexField i p)
  | 2, 0, 2 => storeWord (.index i)
  | 2, 1, 2 => loadWord (.index i) .direct
  | 3, 0, 2 => incrementWord (.index i)
  | 3, 1, 2 => decrementWord (.index i)
  | 4, _, _ => if isIndexField f.y then increment (.ofIndexField i f.y) else none
  | 5, _, _ => if isIndexField f.y then decrement (.ofIndexField i f.y) else none
  | 6, _, _ => if isIndexField f.y then load (.ofIndexField i f.y) .immediate else none
  | _, _, _ => none

/-- The loads behind an index prefix. -/
def indexLoad (i : Index) (f : Fields) : Option Operation :=
  if Fields.isMemory f.y && Fields.isMemory f.z then none
  else if Fields.isMemory f.y then load (.cell (.indexed i)) (.place (.ofField f.z))
  else if Fields.isMemory f.z then load (.ofField f.y) (.place (.cell (.indexed i)))
  else if isIndexField f.y || isIndexField f.z then
    load (.ofIndexField i f.y) (.place (.ofIndexField i f.z))
  else none

/-- The operation of an opcode behind the prefix of an index register. -/
def index (i : Index) (b : UInt8) : Option Operation :=
  let f := Fields.ofByte b
  match f.x with
  | 0 => indexLow i f
  | 1 => indexLoad i f
  | 2 =>
    if isIndexField f.z then arithmetic (.ofField f.y) (.place (.ofIndexField i f.z)) else none
  | 3 =>
    match f.z, f.y with
    | 1, 4 => pop (.index i)
    | 1, 5 => jumpTo (.index i)
    | 1, 7 => loadWord .sp (.reg (.index i))
    | 3, 4 => exchangeTop (.index i)
    | 5, 4 => push (.index i)
    | _, _ => none

/-- The operation of an opcode in a space. -/
def ofOpcode? : Space → UInt8 → Option Operation
  | .main, b => main b
  | .bit, b => bit b
  | .index i, b => index i b
  | .misc, b => misc b
  | .indexBit i, b => indexBit i b

end Operation

end Z80
