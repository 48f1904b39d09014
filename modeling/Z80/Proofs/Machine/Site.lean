import Z80.Disassembly.Buffer
import Z80.Machine.Step
import Z80.Proofs.Addresses

/-!
# Where bytes and words are kept

A byte is kept in a register or a memory cell, and a word likewise or in two places for bytes.  The
operands that the disassembler extracts from an instruction denote such sites, or are values
themselves: a text names a register or the cell that a register points to, an address and an indexed
operand give a cell.

## Main definitions

* `Z80.ByteSite`, `Z80.WordSite` — where a byte or a word is kept, with `Z80.Machine.byteAt`,
  `setByteAt`, `wordAt` and `setWordAt`.
* `Z80.Machine.KeepsRest` — whatever is not kept at sites of bytes is as it was.
* `Z80.Value.byteSite?`, `Z80.Value.wordSite?` — the site that an operand denotes.
* `Z80.Machine.byteOf?`, `Z80.Machine.wordOf?` — the value that an operand denotes.

## Main results

* `Z80.Machine.byteAt_setByteAt`, `Z80.Machine.keepsRest_setByteAt` — a byte that is set changes its
  site and nothing else.
* `Z80.Machine.wordAt_eq`, `Z80.Machine.setWordAt_eq` — a word is that of its bytes, and is set byte
  by byte.
-/

namespace Z80

/-! ### Names -/

namespace ByteReg

/-- The name of a byte register. -/
def name : ByteReg → String
  | a => "a"
  | b => "b"
  | c => "c"
  | d => "d"
  | e => "e"
  | h => "h"
  | l => "l"
  | half index high => halfName index high

/-- All byte registers. -/
def all : List ByteReg :=
  [a, b, c, d, e, h, l, half .ix true, half .ix false, half .iy true, half .iy false]

/-- The byte register with a name. -/
def ofName? (text : String) : Option ByteReg :=
  all.find? fun register => register.name == text

@[simp]
lemma ofName?_name (register : ByteReg) : ofName? register.name = some register := by
  cases register with
  | half index high => cases index <;> cases high <;> decide
  | _ => decide

end ByteReg

namespace WordReg

/-- The name of a word register. -/
def name : WordReg → String
  | af => "af"
  | bc => "bc"
  | de => "de"
  | hl => "hl"
  | sp => "sp"
  | index i => i.name

/-- How the memory cell that a word register points to is written. -/
def cellName (register : WordReg) : String :=
  "(" ++ register.name ++ ")"

/-- All word registers. -/
def all : List WordReg :=
  [af, bc, de, hl, sp, index .ix, index .iy]

/-- The word register with a name. -/
def ofName? (text : String) : Option WordReg :=
  all.find? fun register => register.name == text

/-- The word register that points to a memory cell. -/
def ofCellName? (text : String) : Option WordReg :=
  all.find? fun register => register.cellName == text

@[simp]
lemma ofName?_name (register : WordReg) : ofName? register.name = some register := by
  cases register with
  | index i => cases i <;> decide
  | _ => decide

@[simp]
lemma ofCellName?_cellName (register : WordReg) :
    ofCellName? register.cellName = some register := by
  cases register with
  | index i => cases i <;> decide
  | _ => decide

end WordReg

namespace ControlReg

/-- The name of a register with a purpose of its own. -/
def name : ControlReg → String
  | interrupt => "i"
  | refresh => "r"

/-- The register with a purpose of its own that has a name. -/
def ofName? (text : String) : Option ControlReg :=
  [interrupt, refresh].find? fun register => register.name == text

@[simp]
lemma ofName?_name (register : ControlReg) : ofName? register.name = some register := by
  cases register <;> decide

end ControlReg

/-! ### Different names -/

/-- The name of a byte register is that of no other register. -/
lemma ByteReg.ofName?_name_other (register : ByteReg) :
    WordReg.ofName? register.name = none ∧ ControlReg.ofName? register.name = none := by
  cases register with
  | half i high => cases i <;> cases high <;> decide
  | _ => decide

/-- The name of a register with a purpose of its own is that of no other register. -/
lemma ControlReg.ofName?_name_other (register : ControlReg) :
    ByteReg.ofName? register.name = none ∧ WordReg.ofName? register.name = none := by
  cases register <;> decide

/-- A cell is not written like a register. -/
lemma WordReg.ofName?_cellName (register : WordReg) :
    ByteReg.ofName? register.cellName = none ∧ ControlReg.ofName? register.cellName = none ∧
      ofName? register.cellName = none := by
  cases register with
  | index i => cases i <;> decide
  | _ => decide

/-! ### Sites -/

/-- Where a byte is kept. -/
inductive ByteSite where
  | reg (register : ByteReg)
  | control (register : ControlReg)
  | cell (address : UInt16)
  deriving DecidableEq, Repr

/-- Where a word is kept. -/
inductive WordSite where
  | reg (register : WordReg)
  /-- The cell at an address and the one behind it. -/
  | cell (address : UInt16)
  deriving DecidableEq, Repr

/-- Whatever is not kept at sites of bytes is as it was. -/
structure Machine.KeepsRest {M : Type} (after m : Machine M) : Prop where
  board : after.board = m.board
  isHalted : after.isHalted = m.isHalted
  flags : after.registers.flags = m.registers.flags
  shadow : after.registers.shadow = m.registers.shadow
  sp : after.registers.sp = m.registers.sp
  pc : after.registers.pc = m.registers.pc
  iff1 : after.registers.iff1 = m.registers.iff1
  iff2 : after.registers.iff2 = m.registers.iff2
  mode : after.registers.mode = m.registers.mode

namespace Machine.KeepsRest

variable {M : Type}

lemma refl (m : Machine M) : m.KeepsRest m :=
  ⟨rfl, rfl, rfl, rfl, rfl, rfl, rfl, rfl, rfl⟩

lemma trans {last middle first : Machine M} (h : last.KeepsRest middle)
    (h' : middle.KeepsRest first) : last.KeepsRest first where
  board := h.board.trans h'.board
  isHalted := h.isHalted.trans h'.isHalted
  flags := h.flags.trans h'.flags
  shadow := h.shadow.trans h'.shadow
  sp := h.sp.trans h'.sp
  pc := h.pc.trans h'.pc
  iff1 := h.iff1.trans h'.iff1
  iff2 := h.iff2.trans h'.iff2
  mode := h.mode.trans h'.mode

end Machine.KeepsRest

namespace Machine

variable {M : Type} [Bus M]

/-- The byte at a site. -/
def byteAt (m : Machine M) : ByteSite → UInt8
  | .reg register => m.registers.byte register
  | .control register => control m.registers register
  | .cell address => m.read address

/-- The machine with a byte at a site. -/
def setByteAt (m : Machine M) : ByteSite → UInt8 → Machine M
  | .reg register, v => m.mapRegisters (·.setByte register v)
  | .control .interrupt, v => m.mapRegisters ({ · with i := v })
  | .control .refresh, v => m.mapRegisters ({ · with r := v })
  | .cell address, v => m.write address v

/-- The word at a site. -/
def wordAt (m : Machine M) : WordSite → UInt16
  | .reg register => m.registers.word register
  | .cell address => m.readWord address

/-- The machine with a word at a site. -/
def setWordAt (m : Machine M) : WordSite → UInt16 → Machine M
  | .reg register, w => m.mapRegisters (·.setWord register w)
  | .cell address, w => m.writeWord address w

end Machine

/-- A byte register that is set holds its value, and the others hold theirs. -/
lemma Registers.byte_setByte (r : Registers) (s t : ByteReg) (v : UInt8) :
    (r.setByte s v).byte t = if s = t then v else r.byte t := by
  cases s with
  | half i high =>
    cases t with
    | half j high' =>
      cases i <;> cases j <;> cases high <;> cases high' <;>
        simp [setByte, byte, setIndex, index, lowByte_wordOf, highByte_wordOf]
    | _ => cases i <;> cases high <;> rfl
  | _ =>
    cases t with
    | half j high' => cases high' <;> rfl
    | _ => rfl

/-- The two bytes of a word, the low one first, unless it is kept in one piece. -/
def WordSite.bytes? : WordSite → Option (ByteSite × ByteSite)
  | reg .bc => some (.reg .c, .reg .b)
  | reg .de => some (.reg .e, .reg .d)
  | reg .hl => some (.reg .l, .reg .h)
  | reg (.index i) => some (.reg (.half i false), .reg (.half i true))
  | reg .af | reg .sp => none
  | cell address => some (.cell address, .cell (address + 1))

namespace Machine

/-- **A byte that is set changes its site and no other.** -/
theorem byteAt_setByteAt (m : Machine Memory) (s t : ByteSite) (v : UInt8) :
    (m.setByteAt s v).byteAt t = if s = t then v else m.byteAt t := by
  cases s with
  | reg s =>
    cases t with
    | reg t => simp [byteAt, setByteAt, mapRegisters, Registers.byte_setByte]
    | control t =>
      cases t <;> cases s with
      | half i high => cases i <;> cases high <;> rfl
      | _ => rfl
    | cell a => rfl
  | control s =>
    cases t with
    | reg t =>
      cases s <;> cases t with
      | half i high => cases i <;> cases high <;> rfl
      | _ => rfl
    | control t => cases s <;> cases t <;> rfl
    | cell a => cases s <;> rfl
  | cell a =>
    cases t with
    | cell b =>
      simp [byteAt, setByteAt, Machine.read, write, Bus.read, Bus.write, Memory.read_write]
    | _ => rfl

variable {M : Type} [Bus M]

/-- **A byte that is set changes nothing that is not kept at sites of bytes.** -/
theorem keepsRest_setByteAt (m : Machine M) (s : ByteSite) (v : UInt8) :
    (m.setByteAt s v).KeepsRest m := by
  cases s with
  | reg register =>
    cases register with
    | half i high => cases i <;> cases high <;> constructor <;> rfl
    | _ => constructor <;> rfl
  | control register => cases register <;> constructor <;> rfl
  | cell a => constructor <;> rfl

/-- A word is that of its bytes. -/
theorem wordAt_eq (m : Machine M) {s : WordSite} {low high : ByteSite}
    (h : s.bytes? = some (low, high)) : m.wordAt s = wordOf (m.byteAt low) (m.byteAt high) := by
  unfold WordSite.bytes? at h
  split at h <;> simp only [Option.some.injEq, Prod.mk.injEq, reduceCtorEq] at h
  all_goals obtain ⟨rfl, rfl⟩ := h
  case h_4 i => exact (wordOf_bytes _).symm
  all_goals rfl

/-- **A word is set byte by byte.** -/
theorem setWordAt_eq (m : Machine M) {s : WordSite} {low high : ByteSite}
    (h : s.bytes? = some (low, high)) (w : UInt16) :
    m.setWordAt s w = (m.setByteAt low (lowByte w)).setByteAt high (highByte w) := by
  unfold WordSite.bytes? at h
  split at h <;> simp only [Option.some.injEq, Prod.mk.injEq, reduceCtorEq] at h
  all_goals obtain ⟨rfl, rfl⟩ := h
  case h_4 i =>
    cases i <;> simp [setWordAt, setByteAt, mapRegisters, Registers.setWord, Registers.setByte,
      Registers.setIndex, Registers.index, lowByte_wordOf, wordOf_bytes]
  all_goals rfl

end Machine

/-! ### Operands -/

namespace Value

/-- The byte site that an operand denotes: a register, the cell that a register points to, the cell
at an address, or the cell at a distance from where an index register points. -/
def byteSite? (r : Registers) : Value → Option ByteSite
  | text s =>
    (ByteReg.ofName? s).map .reg <|> (ControlReg.ofName? s).map .control <|>
      (WordReg.ofCellName? s).map fun register => .cell (r.word register)
  | address w => some (.cell w)
  | indexed i displacement => some (.cell (r.index i + displacement.toInt16.toUInt16))
  | byte _ | word _ | port _ | relative _ => none

/-- The name of a byte register denotes it. -/
@[simp]
lemma byteSite?_name (r : Registers) (register : ByteReg) :
    (text register.name).byteSite? r = some (.reg register) := by
  simp [byteSite?]

/-- The word site that an operand denotes. -/
def wordSite? : Value → Option WordSite
  | text s => (WordReg.ofName? s).map .reg
  | address w => some (.cell w)
  | byte _ | word _ | port _ | relative _ | indexed _ _ => none

/-- Whether an operand is a word register or a word. -/
def isWord : Value → Bool
  | text s => (WordReg.ofName? s).isSome
  | word _ => true
  | byte _ | port _ | address _ | relative _ | indexed _ _ => false

end Value

namespace Machine

variable {M : Type} [Bus M]

/-- The byte that an operand denotes. -/
def byteOf? (m : Machine M) : Value → Option UInt8
  | .byte b => some b
  | value => (value.byteSite? m.registers).map m.byteAt

/-- The word that an operand denotes. -/
def wordOf? (m : Machine M) : Value → Option UInt16
  | .word w => some w
  | value => value.wordSite?.map m.wordAt

end Machine

end Z80
