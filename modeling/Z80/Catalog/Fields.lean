/-!
# Bit fields of an opcode

An opcode byte reads as `xxyyyzzz`, and `yyy` in turn as `ppq`.  Most of the instruction set is
regular in these fields.

## Main definitions

* `Z80.Fields` — the fields of a byte, with `Z80.Fields.p` and `Z80.Fields.q`.
* `Z80.Fields.isMemory`, `Z80.Fields.isHalf` — the two kinds of operand field that an index prefix
  changes.
-/

namespace Z80

/-- The bit fields of an opcode byte. -/
structure Fields where
  x : Fin 4
  y : Fin 8
  z : Fin 8
  deriving DecidableEq, Repr

namespace Fields

/-- The bit fields of a byte. -/
def ofByte (b : UInt8) : Fields where
  x := ⟨b.toNat / 64, by have := b.toNat_lt; omega⟩
  y := ⟨b.toNat / 8 % 8, by omega⟩
  z := ⟨b.toNat % 8, by omega⟩

/-- The upper two bits of `y`, which select a register pair. -/
def p (f : Fields) : Fin 4 :=
  ⟨f.y.val / 2, by omega⟩

/-- The lowest bit of `y`. -/
def q (f : Fields) : Fin 2 :=
  ⟨f.y.val % 2, by omega⟩

/-- Whether an operand field selects the cell at `hl`, in place of which an index prefix puts the
indexed cell. -/
def isMemory : Fin 8 → Bool
  | 6 => true
  | _ => false

/-- Whether an operand field selects `h` or `l`, in place of which an index prefix puts a half of
the index register. -/
def isHalf : Fin 8 → Bool
  | 4 | 5 => true
  | _ => false

end Fields

end Z80
