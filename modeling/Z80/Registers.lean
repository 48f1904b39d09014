import Z80.Flags
import Z80.Operand.Index
import Z80.Word

/-!
# Registers

The processor has two banks of an accumulator, flags and six byte registers, of which one is in
use; index registers, stack pointer and program counter; the interrupt and refresh registers; and
the interrupt flip-flops and mode.

## Main definitions

* `Z80.Bank`, `Z80.Registers` — the registers.
* `Z80.ByteReg`, `Z80.WordReg` — the names of registers that instructions use, with
  `Z80.Registers.byte`, `setByte`, `word` and `setWord`.
-/

namespace Z80

/-- The registers that exist twice. -/
structure Bank where
  a : UInt8
  flags : Flags
  b : UInt8
  c : UInt8
  d : UInt8
  e : UInt8
  h : UInt8
  l : UInt8
  deriving DecidableEq, Repr

/-- All of them zero. -/
def Bank.zero : Bank := ⟨0, .clear, 0, 0, 0, 0, 0, 0⟩

/-- How the processor finds out what an interrupt asks for. -/
inductive InterruptMode where
  /-- The device gives an instruction. -/
  | mode0
  /-- Control goes to a fixed address. -/
  | mode1
  /-- The device gives the place of an address in a table. -/
  | mode2
  deriving DecidableEq, Repr

/-- The number of an interrupt mode. -/
def InterruptMode.number : InterruptMode → Nat
  | mode0 => 0
  | mode1 => 1
  | mode2 => 2

/-- The registers of the processor. -/
structure Registers where
  main : Bank
  shadow : Bank
  ix : UInt16
  iy : UInt16
  sp : UInt16
  pc : UInt16
  i : UInt8
  r : UInt8
  iff1 : Bool
  iff2 : Bool
  mode : InterruptMode
  deriving DecidableEq, Repr

/-- The byte registers that instructions name, halves of index registers among them. -/
inductive ByteReg where
  | a | b | c | d | e | h | l
  | half (index : Index) (high : Bool)
  deriving DecidableEq, Repr

/-- The word registers that instructions name. -/
inductive WordReg where
  | af | bc | de | hl | sp
  | index (index : Index)
  deriving DecidableEq, Repr

namespace Registers

/-- The registers at power-on. -/
def zero : Registers := ⟨.zero, .zero, 0, 0, 0, 0, 0, 0, false, false, .mode0⟩

/-- The value of an index register. -/
def index (r : Registers) : Index → UInt16
  | .ix => r.ix
  | .iy => r.iy

/-- The registers with another value of an index register. -/
def setIndex (r : Registers) : Index → UInt16 → Registers
  | .ix, w => { r with ix := w }
  | .iy, w => { r with iy := w }

/-- The value of a byte register. -/
def byte (r : Registers) : ByteReg → UInt8
  | .a => r.main.a
  | .b => r.main.b
  | .c => r.main.c
  | .d => r.main.d
  | .e => r.main.e
  | .h => r.main.h
  | .l => r.main.l
  | .half index true => highByte (r.index index)
  | .half index false => lowByte (r.index index)

/-- The registers with another value of a byte register. -/
def setByte (r : Registers) : ByteReg → UInt8 → Registers
  | .a, v => { r with main.a := v }
  | .b, v => { r with main.b := v }
  | .c, v => { r with main.c := v }
  | .d, v => { r with main.d := v }
  | .e, v => { r with main.e := v }
  | .h, v => { r with main.h := v }
  | .l, v => { r with main.l := v }
  | .half index true, v => r.setIndex index (wordOf (lowByte (r.index index)) v)
  | .half index false, v => r.setIndex index (wordOf v (highByte (r.index index)))

/-- The value of a word register. -/
def word (r : Registers) : WordReg → UInt16
  | .af => wordOf r.main.flags.toByte r.main.a
  | .bc => wordOf r.main.c r.main.b
  | .de => wordOf r.main.e r.main.d
  | .hl => wordOf r.main.l r.main.h
  | .sp => r.sp
  | .index i => r.index i

/-- The registers with another value of a word register. -/
def setWord (r : Registers) : WordReg → UInt16 → Registers
  | .af, w => { r with main.a := highByte w, main.flags := .ofByte (lowByte w) }
  | .bc, w => { r with main.b := highByte w, main.c := lowByte w }
  | .de, w => { r with main.d := highByte w, main.e := lowByte w }
  | .hl, w => { r with main.h := highByte w, main.l := lowByte w }
  | .sp, w => { r with sp := w }
  | .index i, w => r.setIndex i w

/-- The flags. -/
def flags (r : Registers) : Flags :=
  r.main.flags

/-- The registers with other flags. -/
def setFlags (r : Registers) (f : Flags) : Registers :=
  { r with main.flags := f }

/-- The registers with another accumulator and other flags. -/
def setResult (r : Registers) (result : UInt8 × Flags) : Registers :=
  { r with main.a := result.1, main.flags := result.2 }

/-- The registers with the refresh register moved on; its highest bit stays. -/
def refresh (r : Registers) (count : UInt8) : Registers :=
  { r with r := (r.r &&& 0x80) ||| ((r.r + count) &&& 0x7F) }

/-- The registers with accumulator and flags of the two banks exchanged. -/
def exchangeAf (r : Registers) : Registers :=
  { r with
    main.a := r.shadow.a
    main.flags := r.shadow.flags
    shadow.a := r.main.a
    shadow.flags := r.main.flags }

/-- The registers with the other byte registers of the two banks exchanged. -/
def exchangeGeneral (r : Registers) : Registers :=
  { r with
    main := { r.shadow with a := r.main.a, flags := r.main.flags }
    shadow := { r.main with a := r.shadow.a, flags := r.shadow.flags } }

/-- The registers with `de` and `hl` exchanged. -/
def exchangeDeHl (r : Registers) : Registers :=
  { r with
    main.d := r.main.h
    main.e := r.main.l
    main.h := r.main.d
    main.l := r.main.e }

end Registers

end Z80
