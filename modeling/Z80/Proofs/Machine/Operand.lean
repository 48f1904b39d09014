import Z80.Proofs.Catalog.DecodeBack
import Z80.Proofs.Machine.ControlFlow
import Z80.Proofs.Machine.Site

/-!
# Operands of instructions and of operations

The operands that the disassembler extracts from an instruction are texts and numbers; an operation
has places and sources, and the bytes that it fetched.  Both denote the same sites and values.

## Main definitions

* `Z80.Value.Agrees` — whether an operand holds the bytes that an operation fetched.
* `Z80.Place.slot`, `Z80.Place.site` — how a place of an operation is written, and its site.
* `Z80.Machine.passed` — the machine behind an instruction that does nothing.

## Main results

* `Z80.Operation.agrees_of_mem_values` — the operands of an instruction hold the bytes that its
  operation fetches.
* `Z80.Place.byteSite?_value`, `Z80.Machine.byteOf?_value` — an operand denotes the site and the
  value of the place or source that it is written for.
* `Z80.Machine.step_of_passOn` — a step over an operation that passes control on.
-/

namespace Z80

/-! ### Operand bytes -/

/-- Whether an operand of an instruction that ends at `next` holds the bytes that were fetched. -/
def Value.Agrees (operands : Operands) (next : UInt16) : Value → Prop
  | text _ => True
  | byte b | port b => b = operands.byte
  | word w | address w => w = operands.word
  | relative target => target = next + signExtend operands.byte
  | indexed _ displacement => displacement.toInt16.toUInt16 = operands.displacement

/-- What stands behind an opcode whose operands are encoded in these slots. -/
def Slot.layout? : List Slot → Option (Bool × Immediate)
  | [] => some (false, .absent)
  | [byte] | [port] | [relative] => some (false, .byte)
  | [word] | [address] => some (false, .word)
  | [indexed _] => some (true, .absent)
  | [indexed _, byte] => some (true, .byte)
  | _ => none

/-- The operation of an opcode fetches what its template says. -/
lemma Operation.layout?_eq {d : Descriptor} (hd : d ∈ Descriptor.all) {op : Operation}
    (hop : ofOpcode? d.space d.byte = some op) :
    Slot.layout? d.template.encoded = some (op.isIndexed, op.immediate) := by
  have key := Descriptor.of_mem_all
    (P := fun d => (ofOpcode? d.space d.byte).all fun op =>
      Slot.layout? d.template.encoded = some (op.isIndexed, op.immediate)) (by decide +kernel) hd
  simpa [hop] using key

/-- Operands that are encoded in a layout hold what an operation with that layout fetches. -/
lemma Slot.agrees_of_layout? {slots : List Slot} {op : Operation}
    (hlayout : layout? slots = some (op.isIndexed, op.immediate)) {read : UInt16 → UInt8}
    {address next : UInt16} {bytes : List UInt8}
    (hlow : 0 < totalWidth slots → bytes.headD 0 = read address)
    (hhigh : 1 < totalWidth slots → bytes.tail.headD 0 = read (address + 1)) {value : Value}
    (hvalue : value ∈ slotValues next slots bytes) :
    value.Agrees (op.fetch read address).1 next := by
  unfold layout? at hlayout
  split at hlayout <;> simp only [Option.some.injEq, Prod.mk.injEq, reduceCtorEq] at hlayout
  case h_1 => simp [slotValues] at hvalue
  all_goals
    obtain ⟨hindexed, himmediate⟩ := hlayout
    simp only [totalWidth, width] at hlow hhigh
    simp only [slotValues, List.mem_cons, List.not_mem_nil, or_false] at hvalue
    simp only [Operation.fetch, Operation.fetchDisplacement, ← hindexed, ← himmediate,
      Bool.false_eq_true, ↓reduceIte]
  -- a byte, the number of a port, a distance
  case h_2 | h_3 =>
    obtain rfl := hvalue
    exact hlow (by decide)
  case h_4 =>
    obtain rfl := hvalue
    exact congrArg (next + signExtend ·) (hlow (by decide))
  -- a word, an address
  case h_5 | h_6 =>
    obtain rfl := hvalue
    exact congrArg₂ wordOf (hlow (by decide)) (hhigh (by decide))
  -- a displacement, alone and with a byte behind it
  case h_7 =>
    obtain rfl := hvalue
    exact congrArg signExtend (hlow (by decide))
  case h_8 =>
    rcases hvalue with rfl | rfl
    · exact congrArg signExtend (hlow (by decide))
    · rw [width, List.drop_one]
      exact hhigh (by decide)

/-- The operand bytes of an instruction are read behind its opcode. -/
lemma Instruction.headD_operandBytes {read : UInt16 → UInt8} {address : UInt16} {d : Descriptor} :
    (0 < d.template.width →
      ((standing read address d).bytes.drop d.space.operandOffset).headD 0 =
        read (d.space.operandsAt address)) ∧
    (1 < d.template.width →
      ((standing read address d).bytes.drop d.space.operandOffset).tail.headD 0 =
        read (d.space.operandsAt address + 1)) := by
  refine ⟨fun h => ?_, fun h => ?_⟩
  · simpa using @headD_operands read address d 0 (offset_add_lt h)
  · rw [← List.drop_one]
    exact headD_operands (offset_add_lt h)

/-- **The operands of an instruction hold the bytes that its operation fetches.**

**Proof sketch.** Only the operands that are encoded matter, and these are at most two, in one of
few layouts.  The operation fetches by the same layout. -/
theorem Operation.agrees_of_mem_values {d : Descriptor} (hd : d ∈ Descriptor.all) {op : Operation}
    (hop : ofOpcode? d.space d.byte = some op) {read : UInt16 → UInt8} {address : UInt16}
    {value : Value} (hvalue : value ∈ (Instruction.standing read address d).values) :
    value.Agrees (op.fetch read (d.space.operandsAt address)).1
      (address + UInt16.ofNat d.size) := by
  cases hencoded : value.isEncoded with
  | false =>
    cases value with
    | text s => trivial
    | _ => simp [Value.isEncoded] at hencoded
  | true =>
    obtain ⟨hlow, hhigh⟩ := @Instruction.headD_operandBytes read address d
    rw [← d.template.totalWidth_encoded] at hlow hhigh
    refine Slot.agrees_of_layout? (layout?_eq hd hop) hlow hhigh ?_
    rw [Template.encoded, ← filter_slotValues, ← Instruction.next_standing]
    exact List.mem_filter.2 ⟨hvalue, hencoded⟩

/-! ### Operands of operations -/

/-- How a memory cell is written. -/
def Cell.slot : Cell → Slot
  | pointed register => .named register.cellName
  | indexed i => .indexed i
  | direct => .address

/-- How a place is written. -/
def Place.slot : Place → Slot
  | reg register => .named register.name
  | cell c => c.slot

/-- How a source is written. -/
def ByteSource.slot : ByteSource → Slot
  | place p => p.slot
  | immediate => .byte

/-- The site of a place, given the operand bytes. -/
def Place.site (r : Registers) (operands : Operands) : Place → ByteSite
  | reg register => .reg register
  | cell c => .cell (c.address r operands)

section Denote

variable {next next' : UInt16} {bytes : List UInt8} {operands : Operands}

/-- The operand in the slot of a place denotes its site. -/
lemma Place.byteSite?_value {place : Place} (r : Registers)
    (h : (place.slot.value next bytes).Agrees operands next') :
    (place.slot.value next bytes).byteSite? r = some (place.site r operands) := by
  cases place with
  | reg register => exact Value.byteSite?_name r register
  | cell c =>
    cases c with
    | pointed register =>
      obtain ⟨hbyte, hcontrol, -⟩ := register.ofName?_cellName
      simp [slot, Cell.slot, Slot.value, Value.byteSite?, site, hbyte, hcontrol, Cell.address]
    | indexed i => exact congrArg (fun w => some (ByteSite.cell (r.index i + w))) h
    | direct => exact congrArg (fun w => some (ByteSite.cell w)) h

/-- The operand in the slot of a place is no word. -/
lemma Place.isWord_value (place : Place) : (place.slot.value next bytes).isWord = false := by
  cases place with
  | reg register => simp [slot, Slot.value, Value.isWord, register.ofName?_name_other]
  | cell c =>
    cases c with
    | pointed register =>
      simp [slot, Cell.slot, Slot.value, Value.isWord, register.ofName?_cellName.2.2]
    | indexed | direct => rfl

/-- The operand in the slot of a source is no word. -/
lemma ByteSource.isWord_value (source : ByteSource) :
    (source.slot.value next bytes).isWord = false := by
  cases source with
  | place p => exact p.isWord_value
  | immediate => rfl

end Denote

namespace Machine

variable {M : Type} [Bus M] {next next' : UInt16} {bytes : List UInt8} {operands : Operands}

lemma get_eq (m : Machine M) (operands : Operands) (place : Place) :
    m.get operands place = m.byteAt (place.site m.registers operands) := by
  cases place <;> rfl

lemma put_eq (m : Machine M) (operands : Operands) (place : Place) (v : UInt8) :
    m.put operands place v = m.setByteAt (place.site m.registers operands) v := by
  cases place <;> rfl

/-- The operand in the slot of a source denotes the byte that the source gives. -/
lemma byteOf?_value (m : Machine M) {source : ByteSource}
    (h : (source.slot.value next bytes).Agrees operands next') :
    m.byteOf? (source.slot.value next bytes) = some (m.byteFrom operands source) := by
  cases source with
  | immediate => exact congrArg some h
  | place p =>
    have hsite := Place.byteSite?_value m.registers h
    have hbyte : ∀ value : Value,
        value.byteSite? m.registers = some (p.site m.registers operands) →
        m.byteOf? value = some (m.byteAt (p.site m.registers operands)) := by
      intro value hvalue
      cases value with
      | byte b => simp [Value.byteSite?] at hvalue
      | _ => simp [byteOf?, hvalue]
    rw [ByteSource.slot, hbyte _ hsite, byteFrom, get_eq]

end Machine

/-! ### Instructions that pass control on -/

/-- The refresh register moved on: the highest bit stays, the others count. -/
def refreshBy (r : UInt8) (count : Nat) : UInt8 :=
  UInt8.ofNat (r.toNat / 128 * 128 + (r.toNat + count) % 128)

/-- The number of bytes by which an instruction moves the refresh register on. -/
def Descriptor.refreshCount (d : Descriptor) : Nat :=
  if d.space.prefixBytes.isEmpty then 1 else 2

/-- The machine behind an instruction that changes nothing but the program counter and the refresh
register. -/
def Machine.passed {M : Type} (m : Machine M) (d : Descriptor) : Machine M :=
  m.mapRegisters fun r =>
    { r with pc := r.pc + UInt16.ofNat d.size, r := refreshBy r.r d.refreshCount }

/-- Masking and adding moves the refresh register on. -/
lemma Registers.refresh_eq (r : Registers) {count : UInt8} (hcount : count = 1 ∨ count = 2) :
    r.refresh count = { r with r := refreshBy r.r count.toNat } := by
  have hall : (allBytes.all fun b => (b &&& 0x80) ||| ((b + count) &&& 0x7F) =
      refreshBy b count.toNat) = true := by
    rcases hcount with rfl | rfl <;> decide +kernel
  have hbyte : (r.r &&& 0x80) ||| ((r.r + count) &&& 0x7F) = refreshBy r.r count.toNat := by
    simpa using List.all_eq_true.1 hall r.r (mem_allBytes r.r)
  rw [refresh, hbyte]

lemma Registers.r_refresh (r : Registers) (d : Descriptor) :
    (r.refresh d.space.refreshCount).r = refreshBy r.r d.refreshCount := by
  unfold Descriptor.refreshCount
  cases d.space with
  | main => exact congrArg Registers.r (r.refresh_eq (.inl rfl))
  | bit | misc | index | indexBit => exact congrArg Registers.r (r.refresh_eq (.inr rfl))

namespace Machine

variable {M : Type} {m : Machine M}

/-- A byte register holds the same when the refresh register has moved on. -/
lemma byte_refreshed (m : Machine M) (space : Space) (register : ByteReg) :
    (m.refreshed space).registers.byte register = m.registers.byte register := by
  cases register with
  | half i high => cases i <;> cases high <;> rfl
  | _ => rfl

/-- A word register holds the same when the refresh register has moved on. -/
lemma word_refreshed (m : Machine M) (space : Space) (register : WordReg) :
    (m.refreshed space).registers.word register = m.registers.word register := by
  cases register with
  | index i => cases i <;> rfl
  | _ => rfl

/-- A place has the same site when the refresh register has moved on. -/
lemma site_refreshed (m : Machine M) (space : Space) (operands : Operands) (place : Place) :
    place.site (m.refreshed space).registers operands = place.site m.registers operands := by
  cases place with
  | reg register => rfl
  | cell c =>
    cases c with
    | pointed register => exact congrArg ByteSite.cell (m.word_refreshed space register)
    | indexed i => cases i <;> rfl
    | direct => rfl

/-- The machine behind an operation that does nothing. -/
lemma goTo_refreshed (hrunning : m.isHalted = false) (d : Descriptor) :
    (m.refreshed d.space).goTo (m.registers.pc + UInt16.ofNat d.size) false = m.passed d := by
  obtain ⟨registers, memory, board, isHalted⟩ := m
  obtain rfl := hrunning
  have hr := registers.r_refresh d
  simp only [refreshed, mapRegisters, goTo, passed, ← hr]
  rfl

variable [Bus M]

/-- A byte at a site other than the program counter is set before or behind a jump. -/
lemma goTo_setByteAt (m : Machine M) (s : ByteSite) (v : UInt8) (address : UInt16)
    (isHalted : Bool) :
    (m.setByteAt s v).goTo address isHalted = (m.goTo address isHalted).setByteAt s v := by
  cases s with
  | reg register =>
    cases register with
    | half i high => cases i <;> cases high <;> rfl
    | _ => rfl
  | control register => cases register <;> rfl
  | cell a => rfl

/-- A word is set before or behind a jump. -/
lemma goTo_setWordAt (m : Machine M) (s : WordSite) (w : UInt16) (address : UInt16)
    (isHalted : Bool) :
    (m.setWordAt s w).goTo address isHalted = (m.goTo address isHalted).setWordAt s w := by
  cases s with
  | reg register =>
    cases register with
    | index i => cases i <;> rfl
    | _ => rfl
  | cell a => rfl

/-- A place holds the same byte when the refresh register has moved on. -/
lemma get_refreshed (m : Machine M) (space : Space) (operands : Operands) (place : Place) :
    (m.refreshed space).get operands place = m.get operands place := by
  rw [get_eq, get_eq, site_refreshed]
  cases place with
  | reg register => exact m.byte_refreshed space register
  | cell c => rfl

/-- A source gives the same byte when the refresh register has moved on. -/
lemma byteFrom_refreshed (m : Machine M) (space : Space) (operands : Operands)
    (source : ByteSource) :
    (m.refreshed space).byteFrom operands source = m.byteFrom operands source := by
  cases source with
  | place p => exact get_refreshed m space operands p
  | immediate => rfl

/-- A source gives the same word when the refresh register has moved on. -/
lemma wordFrom_refreshed (m : Machine M) (space : Space) (operands : Operands)
    (source : WordSource) :
    (m.refreshed space).wordFrom operands source = m.wordFrom operands source := by
  cases source with
  | reg register => exact m.word_refreshed space register
  | immediate | direct => rfl

/-- **A step over an operation that passes control on** goes behind the instruction and reports
nothing. -/
theorem step_of_passOn (hrunning : m.isHalted = false) {d : Descriptor}
    (hd : Descriptor.decode m.read m.registers.pc = .ok d) :
    ∃ op : Operation, Operation.ofOpcode? d.space d.byte = some op ∧
      ∀ after : Machine M,
        (m.refreshed d.space).execute op
            (op.fetch m.read (d.space.operandsAt m.registers.pc)).1
            (m.registers.pc + UInt16.ofNat d.size) = after.passOn →
          m.step = (after.goTo (m.registers.pc + UInt16.ofNat d.size) false,
            .ok ⟨m.registers.pc, m.registers.pc + UInt16.ofNat d.size, .running, []⟩) := by
  obtain ⟨op, hop, -, hstep⟩ := step_eq hrunning hd
  refine ⟨op, hop, fun after hafter => ?_⟩
  rw [hstep]
  simp only [hafter]
  rfl

end Machine

end Z80
