import Z80.Catalog.Descriptor
import Z80.Catalog.Fields

/-!
# The instruction tables

One function per space says what an opcode byte means in it, by the bit fields of the byte where
the instruction set is regular and by single rows where it is not.  A byte that is a prefix, or
that no instruction uses, has no form.

## Main definitions

* `Z80.Form` — how an instruction is written, in up to two ways.
* `Z80.Form.main`, `bit`, `misc`, `index`, `indexBit` — the form of a byte in each space.
* `Z80.Descriptor.lookup?` — the descriptor of a byte in a space.
* `Z80.Space.order` — the order in which the catalog lists the bytes of a space.
* `Z80.Descriptor.all` — every descriptor.
-/

namespace Z80

/-! ### Names by field -/

/-- The 8-bit operands by field, with the memory cell at `hl` among them. -/
def reg8Name : Fin 8 → String
  | 0 => "b" | 1 => "c" | 2 => "d" | 3 => "e" | 4 => "h" | 5 => "l" | 6 => "(hl)" | 7 => "a"

/-- The register pairs by field. -/
def pairName : Fin 4 → String
  | 0 => "bc" | 1 => "de" | 2 => "hl" | 3 => "sp"

/-- The register pairs that can be pushed, by field. -/
def stackPairName : Fin 4 → String
  | 0 => "bc" | 1 => "de" | 2 => "hl" | 3 => "af"

/-- The conditions by field. -/
def conditionName : Fin 8 → String
  | 0 => "nz" | 1 => "z" | 2 => "nc" | 3 => "c" | 4 => "po" | 5 => "pe" | 6 => "p" | 7 => "m"

/-- The conditions of relative jumps, which are the first four; their field counts from 4. -/
def relativeConditionName : Fin 8 → String
  | 0 | 4 => "nz" | 1 | 5 => "z" | 2 | 6 => "nc" | 3 | 7 => "c"

/-- The text of a bit number. -/
def bitName : Fin 8 → String
  | 0 => "0" | 1 => "1" | 2 => "2" | 3 => "3" | 4 => "4" | 5 => "5" | 6 => "6" | 7 => "7"

/-- The text of a restart address. -/
def restartName : Fin 8 → String
  | 0 => "00h" | 1 => "08h" | 2 => "10h" | 3 => "18h"
  | 4 => "20h" | 5 => "28h" | 6 => "30h" | 7 => "38h"

/-- The rotations and shifts by field. -/
def shiftMnemonic : Fin 8 → Mnemonic
  | 0 => .rlc | 1 => .rrc | 2 => .rl | 3 => .rr | 4 => .sla | 5 => .sra | 6 => .sll | 7 => .srl

/-- The instructions on the accumulator alone, by field. -/
def accumulatorMnemonic : Fin 8 → Mnemonic
  | 0 => .rlca | 1 => .rrca | 2 => .rla | 3 => .rra | 4 => .daa | 5 => .cpl | 6 => .scf | 7 => .ccf

/-- The block instructions, by the kind of transfer and by direction and repetition. -/
def blockMnemonic : (step kind : Fin 4) → Mnemonic
  | 0, 0 => .ldi | 0, 1 => .cpi | 0, 2 => .ini | 0, 3 => .outi
  | 1, 0 => .ldd | 1, 1 => .cpd | 1, 2 => .ind | 1, 3 => .outd
  | 2, 0 => .ldir | 2, 1 => .cpir | 2, 2 => .inir | 2, 3 => .otir
  | 3, 0 => .lddr | 3, 1 => .cpdr | 3, 2 => .indr | 3, 3 => .otdr

/-- The name of the upper or lower half of an index register. -/
def halfName : Index → (high : Bool) → String
  | .ix, true => "ixh" | .ix, false => "ixl" | .iy, true => "iyh" | .iy, false => "iyl"

/-- The undocumented name of the upper or lower half of an index register. -/
def halfAlternateName : Index → (high : Bool) → String
  | .ix, true => "xh" | .ix, false => "xl" | .iy, true => "yh" | .iy, false => "yl"

/-- The 8-bit operands by field where halves of an index register stand in for `h` and `l`. -/
def indexReg8Name (i : Index) : Fin 8 → String
  | 4 => halfName i true
  | 5 => halfName i false
  | r => reg8Name r

/-- The same operands with the undocumented names of the halves. -/
def indexReg8AlternateName (i : Index) : Fin 8 → String
  | 4 => halfAlternateName i true
  | 5 => halfAlternateName i false
  | r => reg8Name r

/-- The register pairs by field where an index register stands in for `hl`. -/
def indexPairName (i : Index) : Fin 4 → String
  | 2 => i.name
  | p => pairName p

/-! ### Forms -/

/-- How an instruction is written. -/
structure Form where
  template : Template
  alternate : Option Template
  isDuplicate : Bool
  deriving DecidableEq, Repr

namespace Form

/-- An instruction that is written in one way. -/
def single (mnemonic : Mnemonic) (slots : List Slot) : Form :=
  ⟨⟨mnemonic, slots⟩, none, false⟩

/-- A second encoding of an instruction: it is decoded and executed, but no source text selects
it. -/
def duplicate (mnemonic : Mnemonic) (slots : List Slot) : Form :=
  ⟨⟨mnemonic, slots⟩, none, true⟩

/-- An instruction on named operands, with no other operands. -/
def ofNames (mnemonic : Mnemonic) (names : List String) : Form :=
  single mnemonic (names.map .named)

/-- The template of an arithmetic or logical operation of the accumulator with an operand.  The
accumulator is written only where an operation could have another first operand. -/
def arithmetic : Fin 8 → Slot → Template
  | 0, operand => ⟨.add, [.named "a", operand]⟩
  | 1, operand => ⟨.adc, [.named "a", operand]⟩
  | 2, operand => ⟨.sub, [operand]⟩
  | 3, operand => ⟨.sbc, [.named "a", operand]⟩
  | 4, operand => ⟨.and, [operand]⟩
  | 5, operand => ⟨.xor, [operand]⟩
  | 6, operand => ⟨.or, [operand]⟩
  | 7, operand => ⟨.cp, [operand]⟩

/-- The forms without a prefix, first quarter. -/
def mainLow (f : Fields) : Form :=
  match f.z with
  | 0 =>
    match f.y with
    | 0 => single .nop []
    | 1 => ofNames .ex ["af", "af'"]
    | 2 => single .djnz [.relative]
    | 3 => single .jr [.relative]
    | y => single .jr [.named (relativeConditionName y), .relative]
  | 1 =>
    match f.q with
    | 0 => single .ld [.named (pairName f.p), .word]
    | 1 => ofNames .add ["hl", pairName f.p]
  | 2 =>
    match f.y with
    | 0 => ofNames .ld ["(bc)", "a"]
    | 1 => ofNames .ld ["a", "(bc)"]
    | 2 => ofNames .ld ["(de)", "a"]
    | 3 => ofNames .ld ["a", "(de)"]
    | 4 => single .ld [.address, .named "hl"]
    | 5 => single .ld [.named "hl", .address]
    | 6 => single .ld [.address, .named "a"]
    | 7 => single .ld [.named "a", .address]
  | 3 =>
    match f.q with
    | 0 => ofNames .inc [pairName f.p]
    | 1 => ofNames .dec [pairName f.p]
  | 4 => ofNames .inc [reg8Name f.y]
  | 5 => ofNames .dec [reg8Name f.y]
  | 6 => single .ld [.named (reg8Name f.y), .byte]
  | 7 => single (accumulatorMnemonic f.y) []

/-- The forms without a prefix, last quarter. -/
def mainHigh (f : Fields) : Option Form :=
  match f.z with
  | 0 => ofNames .ret [conditionName f.y]
  | 1 =>
    match f.q, f.p with
    | 0, p => ofNames .pop [stackPairName p]
    | 1, 0 => single .ret []
    | 1, 1 => single .exx []
    | 1, 2 => ofNames .jp ["(hl)"]
    | 1, 3 => ofNames .ld ["sp", "hl"]
  | 2 => single .jp [.named (conditionName f.y), .word]
  | 3 =>
    match f.y with
    | 0 => single .jp [.word]
    | 1 => none
    | 2 => single .out [.port, .named "a"]
    | 3 => single .in_ [.named "a", .port]
    | 4 => ofNames .ex ["(sp)", "hl"]
    | 5 => ofNames .ex ["de", "hl"]
    | 6 => single .di []
    | 7 => single .ei []
  | 4 => single .call [.named (conditionName f.y), .word]
  | 5 =>
    match f.q, f.p with
    | 0, p => ofNames .push [stackPairName p]
    | 1, 0 => single .call [.word]
    | 1, _ => none
  | 6 => some ⟨arithmetic f.y .byte, none, false⟩
  | 7 => single .rst [.literal (restartName f.y)]

/-- The form of an opcode without a prefix. -/
def main (b : UInt8) : Option Form :=
  let f := Fields.ofByte b
  match f.x with
  | 0 => mainLow f
  | 1 => if b = 0x76 then single .halt [] else ofNames .ld [reg8Name f.y, reg8Name f.z]
  | 2 => some ⟨arithmetic f.y (.named (reg8Name f.z)), none, false⟩
  | 3 => mainHigh f

/-- A rotation or shift of operands; only the undocumented one can be written in two ways. -/
def shift (y : Fin 8) (slots : List Slot) : Form :=
  match y with
  | 6 => ⟨⟨.sll, slots⟩, some ⟨.sl1, slots⟩, false⟩
  | y => single (shiftMnemonic y) slots

/-- The form of an opcode behind `CB`. -/
def bit (b : UInt8) : Form :=
  let f := Fields.ofByte b
  let operand := Slot.named (reg8Name f.z)
  match f.x with
  | 0 => shift f.y [operand]
  | 1 => single .bit [.literal (bitName f.y), operand]
  | 2 => single .res [.literal (bitName f.y), operand]
  | 3 => single .set [.literal (bitName f.y), operand]

/-- The forms behind `ED`, second quarter. -/
def miscLow (f : Fields) : Option Form :=
  match f.z with
  | 0 =>
    if Fields.isMemory f.y then
      some ⟨⟨.in_, [.named "(c)"]⟩, some ⟨.in_, [.named "f", .named "(c)"]⟩, false⟩
    else ofNames .in_ [reg8Name f.y, "(c)"]
  | 1 =>
    if Fields.isMemory f.y then single .out [.named "(c)", .literal "0"]
    else ofNames .out ["(c)", reg8Name f.y]
  | 2 =>
    match f.q with
    | 0 => ofNames .sbc ["hl", pairName f.p]
    | 1 => ofNames .adc ["hl", pairName f.p]
  | 3 =>
    match f.q, f.p with
    | 0, 2 => duplicate .ld [.address, .named "hl"]
    | 1, 2 => duplicate .ld [.named "hl", .address]
    | 0, p => single .ld [.address, .named (pairName p)]
    | 1, p => single .ld [.named (pairName p), .address]
  | 4 =>
    match f.y with
    | 0 => single .neg []
    | _ => duplicate .neg []
  | 5 =>
    match f.y with
    | 0 => single .retn []
    | 1 => single .reti []
    | _ => duplicate .retn []
  | 6 =>
    match f.y with
    | 0 => single .im [.literal "0"]
    | 2 => single .im [.literal "1"]
    | 3 => single .im [.literal "2"]
    | 6 => duplicate .im [.literal "1"]
    | 7 => duplicate .im [.literal "2"]
    | _ => duplicate .im [.literal "0"]
  | 7 =>
    match f.y with
    | 0 => ofNames .ld ["i", "a"]
    | 1 => ofNames .ld ["r", "a"]
    | 2 => ofNames .ld ["a", "i"]
    | 3 => ofNames .ld ["a", "r"]
    | 4 => single .rrd []
    | 5 => single .rld []
    | _ => none

/-- The form of a block instruction: the lower half of both fields is in use. -/
def block (f : Fields) : Option Form :=
  if h : 4 ≤ f.y.val ∧ f.z.val < 4 then
    single (blockMnemonic ⟨f.y.val - 4, by omega⟩ ⟨f.z.val, h.2⟩) []
  else none

/-- The form of an opcode behind `ED`. -/
def misc (b : UInt8) : Option Form :=
  let f := Fields.ofByte b
  match f.x with
  | 1 => miscLow f
  | 2 => block f
  | _ => none

/-- An instruction on halves of an index register, which can be written in two ways. -/
def onHalves (mnemonic : Mnemonic) (slots alternate : List Slot) : Form :=
  ⟨⟨mnemonic, slots⟩, some ⟨mnemonic, alternate⟩, false⟩

/-- An instruction with one operand that is a half of the index register or indexed. -/
def onIndexed (i : Index) (mnemonic : Mnemonic) (r : Fin 8) (more : List Slot) : Option Form :=
  if Fields.isHalf r then
    onHalves mnemonic (.named (indexReg8Name i r) :: more)
      (.named (indexReg8AlternateName i r) :: more)
  else if Fields.isMemory r then single mnemonic (.indexed i :: more)
  else none

/-- The forms behind an index prefix, first quarter. -/
def indexLow (i : Index) (f : Fields) : Option Form :=
  match f.z, f.q, f.p with
  | 1, 1, p => ofNames .add [i.name, indexPairName i p]
  | 1, 0, 2 => single .ld [.named i.name, .word]
  | 2, 0, 2 => single .ld [.address, .named i.name]
  | 2, 1, 2 => single .ld [.named i.name, .address]
  | 3, 0, 2 => ofNames .inc [i.name]
  | 3, 1, 2 => ofNames .dec [i.name]
  | 4, _, _ => onIndexed i .inc f.y []
  | 5, _, _ => onIndexed i .dec f.y []
  | 6, _, _ => onIndexed i .ld f.y [.byte]
  | _, _, _ => none

/-- The loads behind an index prefix.  Beside an indexed operand, `h` and `l` are themselves. -/
def indexLoad (i : Index) (f : Fields) : Option Form :=
  if Fields.isMemory f.y && Fields.isMemory f.z then none
  else if Fields.isMemory f.y then single .ld [.indexed i, .named (reg8Name f.z)]
  else if Fields.isMemory f.z then single .ld [.named (reg8Name f.y), .indexed i]
  else if Fields.isHalf f.y || Fields.isHalf f.z then
    onHalves .ld [.named (indexReg8Name i f.y), .named (indexReg8Name i f.z)]
      [.named (indexReg8AlternateName i f.y), .named (indexReg8AlternateName i f.z)]
  else none

/-- The arithmetic and logic behind an index prefix. -/
def indexArithmetic (i : Index) (f : Fields) : Option Form :=
  if Fields.isHalf f.z then
    some ⟨arithmetic f.y (.named (indexReg8Name i f.z)),
      some (arithmetic f.y (.named (indexReg8AlternateName i f.z))), false⟩
  else if Fields.isMemory f.z then some ⟨arithmetic f.y (.indexed i), none, false⟩
  else none

/-- The form of an opcode behind the prefix of an index register. -/
def index (i : Index) (b : UInt8) : Option Form :=
  let f := Fields.ofByte b
  match f.x with
  | 0 => indexLow i f
  | 1 => indexLoad i f
  | 2 => indexArithmetic i f
  | 3 =>
    match f.z, f.y with
    | 1, 4 => ofNames .pop [i.name]
    | 3, 4 => ofNames .ex ["(sp)", i.name]
    | 5, 4 => ofNames .push [i.name]
    | 1, 5 => ofNames .jp ["(" ++ i.name ++ ")"]
    | 1, 7 => ofNames .ld ["sp", i.name]
    | _, _ => none

/-- The slots of an operation that also copies its result to a register, unless the field selects
memory. -/
def withCopy (slots : List Slot) (z : Fin 8) : List Slot :=
  if Fields.isMemory z then slots else slots ++ [.named (reg8Name z)]

/-- The form of an opcode behind an index prefix and `CB`. -/
def indexBit (i : Index) (b : UInt8) : Form :=
  let f := Fields.ofByte b
  match f.x with
  | 0 => shift f.y (withCopy [.indexed i] f.z)
  | 1 => ⟨⟨.bit, [.literal (bitName f.y), .indexed i]⟩, none, !Fields.isMemory f.z⟩
  | 2 => single .res (withCopy [.literal (bitName f.y), .indexed i] f.z)
  | 3 => single .set (withCopy [.literal (bitName f.y), .indexed i] f.z)

/-- The form of an opcode in a space. -/
def lookup? : Space → UInt8 → Option Form
  | .main, b => main b
  | .bit, b => bit b
  | .index i, b => index i b
  | .misc, b => misc b
  | .indexBit i, b => indexBit i b

end Form

/-! ### Descriptors -/

/-- The descriptor of an opcode in a space. -/
def Descriptor.lookup? (space : Space) (b : UInt8) : Option Descriptor :=
  (Form.lookup? space b).map fun form =>
    ⟨space, b, form.template, form.alternate, form.isDuplicate⟩

/-- All bytes in ascending order. -/
def allBytes : List UInt8 :=
  (List.range 256).map UInt8.ofNat

/-- The bytes of the index spaces that no field rule puts in order: 16-bit instructions first,
then those on the halves and on the indexed cell. -/
def indexLeading : List UInt8 :=
  [0x09, 0x19, 0x29, 0x39, 0x21, 0x22, 0x23, 0x2A, 0x2B, 0x24, 0x25, 0x26, 0x2C, 0x2D, 0x2E,
    0x34, 0x35, 0x36]

/-- The order in which the catalog lists the bytes of a space.  It is ascending, but for the index
spaces, where `indexLeading` comes first. -/
def Space.order : Space → List UInt8
  | .index _ => indexLeading ++ allBytes.filter (0x40 ≤ ·)
  | _ => allBytes

/-- The descriptors of a space, in the order of the catalog. -/
def Space.descriptors (space : Space) : List Descriptor :=
  space.order.filterMap (Descriptor.lookup? space)

/-- Every descriptor, by spaces. -/
def Descriptor.all : List Descriptor :=
  Space.all.flatMap Space.descriptors

end Z80
