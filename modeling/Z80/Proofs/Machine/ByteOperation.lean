import Z80.Proofs.Arithmetic.Outcome
import Z80.Proofs.Machine.Operand

/-!
# Operations on bytes follow the catalog

An operation on a byte takes the value that the operand in its template denotes, computes what its
mnemonic names, and puts its result into the accumulator, or back where the operand is kept and into
a second register that the template may name.

## Main definitions

* `Z80.ByteInstruction` — an operation with its operands, as its instruction is written.
* `Z80.Template.isByteOperation` — whether a template is that of an operation on a byte.
* `Z80.Machine.operated?` — the machine behind such an operation, by its operands.

## Main results

* `Z80.Operation.onByte?_eq` — every operation on a byte in the catalog is executed as one, on the
  operands of its template.
* `Z80.Machine.byteAt_withResult`, `Z80.Machine.keepsRest_withResult` — a result changes the sites
  that it goes to and the flags, and nothing else.
* `Z80.Machine.step_byteOperation` — a step over an operation on a byte.
-/

namespace Z80

/-! ### Operations -/

namespace ByteOperation

/-- Where the result of an operation goes that does not go back to its operands: nowhere, or into
the accumulator. -/
def targets? : ByteOperation → Option (List ByteSite)
  | arithmetic .cp | testBit _ => some []
  | arithmetic _ => some [.reg .a]
  | _ => none

end ByteOperation

/-! ### Instructions -/

/-- The number of a bit that a text gives. -/
def bitNumber? (text : String) : Option (Fin 8) :=
  match Expr.evaluateWord (.bare 0) text with
  | .ok w => if h : w.toNat < 8 then some ⟨w.toNat, h⟩ else none
  | .error _ => none

/-- The operation that a mnemonic names, with the operands in front of the byte that it works on:
the accumulator, or the number of a bit. -/
def ByteOperation.ofValues? : Mnemonic → List Value → Option (ByteOperation × List Value)
  | .add, .text s :: values => if s = "a" then some (arithmetic .add, values) else none
  | .adc, .text s :: values => if s = "a" then some (arithmetic .adc, values) else none
  | .sbc, .text s :: values => if s = "a" then some (arithmetic .sbc, values) else none
  | .sub, values => some (arithmetic .sub, values)
  | .and, values => some (arithmetic .and, values)
  | .xor, values => some (arithmetic .xor, values)
  | .or, values => some (arithmetic .or, values)
  | .cp, values => some (arithmetic .cp, values)
  | .inc, values => some (increment, values)
  | .dec, values => some (decrement, values)
  | .rlc, values => some (shift .rlc, values)
  | .rrc, values => some (shift .rrc, values)
  | .rl, values => some (shift .rl, values)
  | .rr, values => some (shift .rr, values)
  | .sla, values => some (shift .sla, values)
  | .sra, values => some (shift .sra, values)
  | .sll, values => some (shift .sll, values)
  | .srl, values => some (shift .srl, values)
  | .bit, .text s :: values => (bitNumber? s).map fun n => (testBit n, values)
  | .res, .text s :: values => (bitNumber? s).map fun n => (resetBit n, values)
  | .set, .text s :: values => (bitNumber? s).map fun n => (setBit n, values)
  | _, _ => none

/-- An operation on a byte as it is written: with the operand that it works on and, if there is
one, the register that its result is copied to. -/
structure ByteInstruction where
  operation : ByteOperation
  operand : Value
  copy? : Option Value
  deriving DecidableEq, Repr

namespace ByteInstruction

/-- The operation on a byte that a mnemonic and its operands are. -/
def ofValues? (mnemonic : Mnemonic) (values : List Value) : Option ByteInstruction :=
  match ByteOperation.ofValues? mnemonic values with
  | some (operation, [operand]) => some ⟨operation, operand, none⟩
  | some (operation, [operand, copy]) => some ⟨operation, operand, some copy⟩
  | _ => none

/-- Where the result goes: if not elsewhere, back to where the operand is kept, and into the
register for a copy. -/
def targets? (x : ByteInstruction) (r : Registers) : Option (List ByteSite) :=
  x.operation.targets?.or ((x.operand :: x.copy?.toList).mapM (Value.byteSite? r))

end ByteInstruction

namespace Machine

variable {M : Type} [Bus M]

/-- The machine with the result of an operation at some sites, and its flags. -/
def withResult (m : Machine M) (result : UInt8 × Flags) (targets : List ByteSite) : Machine M :=
  targets.foldl (fun m site => m.setByteAt site result.1) (m.mapRegisters (·.setFlags result.2))

/-- The machine behind an operation on a byte, by the operands of its instruction. -/
def operated? (m : Machine M) (d : Descriptor) (x : ByteInstruction) : Option (Machine M) := do
  let v ← m.byteOf? x.operand
  let targets ← x.targets? m.registers
  let result := x.operation.outcome m.registers.flags m.registers.main.a v
  return (m.passed d).withResult result targets

end Machine

/-! ### Templates -/

namespace ByteOperation

/-- The mnemonics of the operations on a byte, some of which also name operations on words. -/
def mnemonics : List Mnemonic :=
  [.add, .adc, .sub, .sbc, .and, .xor, .or, .cp, .inc, .dec,
    .rlc, .rrc, .rl, .rr, .sla, .sra, .sll, .srl, .bit, .res, .set]

/-- The mnemonic of an operation. -/
def mnemonic : ByteOperation → Mnemonic
  | arithmetic .add => .add
  | arithmetic .adc => .adc
  | arithmetic .sub => .sub
  | arithmetic .sbc => .sbc
  | arithmetic .and => .and
  | arithmetic .xor => .xor
  | arithmetic .or => .or
  | arithmetic .cp => .cp
  | increment => .inc
  | decrement => .dec
  | shift .rlc => .rlc
  | shift .rrc => .rrc
  | shift .rl => .rl
  | shift .rr => .rr
  | shift .sla => .sla
  | shift .sra => .sra
  | shift .sll => .sll
  | shift .srl => .srl
  | testBit _ => .bit
  | resetBit _ => .res
  | setBit _ => .set

/-- The slots in front of the byte that an operation works on. -/
def front : ByteOperation → List Slot
  | arithmetic .add | arithmetic .adc | arithmetic .sbc => [.named ByteReg.a.name]
  | testBit n | resetBit n | setBit n => [.literal (bitName n)]
  | _ => []

/-- The operands in front of the one that an operation works on. -/
def frontValues : ByteOperation → List Value
  | arithmetic .add | arithmetic .adc | arithmetic .sbc => [.text ByteReg.a.name]
  | testBit n | resetBit n | setBit n => [.text (bitName n)]
  | _ => []

/-- How an operation on a source is written, with a register for a copy of the result. -/
def template (op : ByteOperation) (source : ByteSource) (copy? : Option ByteReg) : Template :=
  ⟨op.mnemonic, op.front ++ source.slot :: copy?.toList.map fun register => .named register.name⟩

end ByteOperation

/-- Whether a slot is a word register. -/
def Slot.isWordRegister : Slot → Bool
  | named s => (WordReg.ofName? s).isSome
  | _ => false

/-- Whether a template is that of an operation on a byte. -/
def Template.isByteOperation (template : Template) : Bool :=
  ByteOperation.mnemonics.contains template.mnemonic &&
    !template.slots.any Slot.isWordRegister

/-- The operation on a byte that an operation is, the source of its operand, and the register for a
copy of the result. -/
def Operation.onByte? : Operation → Option (ByteOperation × ByteSource × Option ByteReg)
  | arithmetic op source => some (.arithmetic op, source, none)
  | increment place => some (.increment, .place place, none)
  | decrement place => some (.decrement, .place place, none)
  | shift s place copy => some (.shift s, .place place, copy)
  | testBit n place => some (.testBit n, .place place, none)
  | resetBit n place copy => some (.resetBit n, .place place, copy)
  | setBit n place copy => some (.setBit n, .place place, copy)
  | _ => none

/-- Whether the site of a place stays the same when flags change. -/
def Place.isFreeOfFlags : Place → Bool
  | cell (.pointed .af) => false
  | _ => true

/-- Whether the site of a source, if it is a place, stays the same when flags change. -/
def ByteSource.isFreeOfFlags : ByteSource → Bool
  | place p => p.isFreeOfFlags
  | immediate => true

/-- **Every operation on a byte in the catalog is executed as one**, on the operands of its
template. -/
theorem Operation.onByte?_eq {d : Descriptor} (hd : d ∈ Descriptor.all) {op : Operation}
    (hop : ofOpcode? d.space d.byte = some op) (hbyte : d.template.isByteOperation = true) :
    ∃ operation source copy?, op.onByte? = some (operation, source, copy?) ∧
      source.isFreeOfFlags = true ∧ d.template = operation.template source copy? := by
  -- templates are compared first, which leaves few to be asked for word registers
  have key := Descriptor.of_mem_all
    (P := fun d => (ofOpcode? d.space d.byte).all fun op =>
      op.onByte?.any (fun x => x.2.1.isFreeOfFlags && d.template = x.1.template x.2.1 x.2.2) ||
        !d.template.isByteOperation)
    (by decide +kernel) hd
  simp only [hbyte, hop, Bool.not_true, Bool.or_false, Option.all_some, Option.any_eq_true,
    Bool.and_eq_true, decide_eq_true_eq] at key
  obtain ⟨⟨operation, source, copy?⟩, hx, hfree, htemplate⟩ := key
  exact ⟨operation, source, copy?, hx, hfree, htemplate⟩

/-- The text of a bit number gives it back. -/
lemma bitNumber?_bitName (n : Fin 8) : bitNumber? (bitName n) = some n := by
  revert n
  decide +kernel

namespace ByteOperation

/-- The operands of an operation are those in front, that of its source, and that for a copy. -/
lemma slotValues_template {next : UInt16} {bytes : List UInt8} (op : ByteOperation)
    (source : ByteSource) (copy? : Option ByteReg) :
    slotValues next (op.template source copy?).slots bytes =
      op.frontValues ++ source.slot.value next bytes ::
        copy?.toList.map fun register => Value.text register.name := by
  cases op with
  | arithmetic op => cases op <;> cases copy? <;> rfl
  | _ => cases copy? <;> rfl

/-- The mnemonic of an operation and the operands in front name it. -/
lemma ofValues?_mnemonic (op : ByteOperation) (values : List Value) :
    ofValues? op.mnemonic (op.frontValues ++ values) = some (op, values) := by
  cases op with
  | arithmetic op => cases op <;> rfl
  | shift s => cases s <;> rfl
  | increment | decrement => rfl
  | testBit n | resetBit n | setBit n =>
    simp [mnemonic, frontValues, ofValues?, bitNumber?_bitName]

end ByteOperation

/-- The operands of a template give its operation back. -/
lemma ByteInstruction.ofValues?_template {next : UInt16} {bytes : List UInt8} (op : ByteOperation)
    (source : ByteSource) (copy? : Option ByteReg) :
    ofValues? (op.template source copy?).mnemonic
        (slotValues next (op.template source copy?).slots bytes) =
      some ⟨op, source.slot.value next bytes,
        copy?.map fun register => Value.text register.name⟩ := by
  rw [ByteOperation.slotValues_template]
  change ofValues? op.mnemonic _ = _
  simp only [ofValues?, ByteOperation.ofValues?_mnemonic]
  cases copy? <;> rfl

/-! ### Execution -/

/-- A place of which the site stays the same when flags change. -/
lemma Place.site_setFlags {place : Place} (h : place.isFreeOfFlags = true) (r : Registers)
    (flags : Flags) (operands : Operands) :
    place.site (r.setFlags flags) operands = place.site r operands := by
  cases place with
  | reg register => rfl
  | cell c =>
    cases c with
    | pointed register =>
      cases register with
      | af => simp [isFreeOfFlags] at h
      | index i => cases i <;> rfl
      | _ => rfl
    | indexed i => cases i <;> rfl
    | direct => rfl

/-- The sites that the result of an operation goes to if its operand is a place. -/
def ByteSource.sites (r : Registers) (operands : Operands) (copy? : Option ByteReg) :
    ByteSource → List ByteSite
  | place p => p.site r operands :: copy?.toList.map .reg
  | immediate => []

namespace Machine

variable {M : Type} [Bus M]

/-- A result is put before or behind a jump. -/
lemma goTo_withResult (m : Machine M) (result : UInt8 × Flags) (targets : List ByteSite)
    (address : UInt16) (isHalted : Bool) :
    (m.withResult result targets).goTo address isHalted =
      (m.goTo address isHalted).withResult result targets := by
  have key (m' : Machine M) :
      (targets.foldl (fun m site => m.setByteAt site result.1) m').goTo address isHalted =
        targets.foldl (fun m site => m.setByteAt site result.1) (m'.goTo address isHalted) := by
    induction targets generalizing m' with
    | nil => rfl
    | cons site targets ih => rw [List.foldl_cons, List.foldl_cons, ih, goTo_setByteAt]
  exact key (m.mapRegisters (·.setFlags result.2))

/-- A result that goes back to a place is put there, and into the register for a copy. -/
lemma withResult_sites (m : Machine M) (result : UInt8 × Flags) (operands : Operands)
    {place : Place} (hfree : place.isFreeOfFlags = true) (copy? : Option ByteReg) :
    m.withResult result ((ByteSource.place place).sites m.registers operands copy?) =
      (m.mapRegisters (·.setFlags result.2)).putCopy operands place copy? result.1 := by
  have hput := (m.mapRegisters (·.setFlags result.2)).put_eq operands place result.1
  change _ = (m.mapRegisters (·.setFlags result.2)).setByteAt
    (place.site (m.registers.setFlags result.2) operands) result.1 at hput
  rw [Place.site_setFlags hfree] at hput
  cases copy? with
  | none => exact hput.symm
  | some register => exact congrArg (Machine.setByteAt · (.reg register) result.1) hput.symm

/-- **An operation on a byte puts its result where it goes**, and sets its flags. -/
theorem execute_onByte (m : Machine M) {op : Operation} {operation : ByteOperation}
    {source : ByteSource} {copy? : Option ByteReg}
    (hop : op.onByte? = some (operation, source, copy?)) (hfree : source.isFreeOfFlags = true)
    (operands : Operands) (next : UInt16) :
    m.execute op operands next =
      (m.withResult
        (operation.outcome m.registers.flags m.registers.main.a (m.byteFrom operands source))
        (operation.targets?.getD (source.sites m.registers operands copy?))).passOn := by
  rw [← ByteOperation.apply_eq_outcome]
  cases op with
  | arithmetic op source =>
    obtain ⟨rfl, rfl, rfl⟩ := Option.some.inj hop
    cases op <;> rfl
  | increment place | decrement place =>
    obtain ⟨rfl, rfl, rfl⟩ := Option.some.inj hop
    exact congrArg passOn (m.withResult_sites _ operands hfree none).symm
  | shift _ place copy? | resetBit _ place copy? | setBit _ place copy? =>
    obtain ⟨rfl, rfl, rfl⟩ := Option.some.inj hop
    refine Eq.trans ?_ (congrArg passOn (m.withResult_sites _ operands hfree copy?).symm)
    rfl
  | testBit n place =>
    obtain ⟨rfl, rfl, rfl⟩ := Option.some.inj hop
    rfl
  | _ => simp [Operation.onByte?] at hop

/-- **A result changes nothing but the flags** that is not kept at sites of bytes. -/
theorem keepsRest_withResult (m : Machine M) (result : UInt8 × Flags) (targets : List ByteSite) :
    (m.withResult result targets).KeepsRest (m.mapRegisters (·.setFlags result.2)) := by
  unfold withResult
  generalize m.mapRegisters _ = m'
  induction targets generalizing m' with
  | nil => exact .refl m'
  | cons site targets ih => exact (ih _).trans (m'.keepsRest_setByteAt site result.1)

/-- **A result is found wherever it goes**, and all other sites keep their bytes. -/
theorem byteAt_withResult (m : Machine Memory) (result : UInt8 × Flags) (targets : List ByteSite)
    (site : ByteSite) :
    (m.withResult result targets).byteAt site =
      if site ∈ targets then result.1 else m.byteAt site := by
  have hflags : (m.mapRegisters (·.setFlags result.2)).byteAt site = m.byteAt site := by
    cases site with
    | reg register =>
      cases register with
      | half i high => cases i <;> cases high <;> rfl
      | _ => rfl
    | control register => cases register <;> rfl
    | cell a => rfl
  unfold withResult
  rw [← hflags]
  generalize m.mapRegisters _ = m'
  induction targets generalizing m' with
  | nil => simp
  | cons target targets ih =>
    rw [List.foldl_cons, ih, byteAt_setByteAt]
    by_cases hmem : site ∈ targets
    · simp [hmem]
    · simp [hmem, eq_comm (a := target)]

end Machine

/-- Resetting and setting bits changes no flag. -/
lemma ByteOperation.flags_outcome {op : ByteOperation} (h : op.mnemonic ∈ [Mnemonic.res, .set])
    (flags : Flags) (a v : UInt8) : (op.outcome flags a v).2 = flags := by
  cases op with
  | resetBit n | setBit n => rfl
  | arithmetic op => cases op <;> simp [mnemonic] at h
  | shift s => cases s <;> simp [mnemonic] at h
  | increment | decrement | testBit n => simp [mnemonic] at h

/-- Counting and testing bits leaves the carry flag as it was. -/
lemma ByteOperation.carry_outcome {op : ByteOperation}
    (h : op.mnemonic ∈ [Mnemonic.inc, .dec, .bit]) (flags : Flags) (a v : UInt8) :
    (op.outcome flags a v).2.carry = flags.carry := by
  cases op with
  | increment | decrement | testBit n => rfl
  | arithmetic op => cases op <;> simp [mnemonic] at h
  | shift s => cases s <;> simp [mnemonic] at h
  | resetBit n | setBit n => simp [mnemonic] at h

/-! ### Steps -/

namespace Machine

section Operated

variable {M : Type} {op : Operation} {operation : ByteOperation} {source : ByteSource}
  {copy? : Option ByteReg}

/-- A source has the same sites when the refresh register has moved on. -/
lemma sites_refreshed (m : Machine M) (space : Space) (operands : Operands) :
    source.sites (m.refreshed space).registers operands copy? =
      source.sites m.registers operands copy? := by
  cases source with
  | place p => exact congrArg (· :: _) (m.site_refreshed space operands p)
  | immediate => rfl

variable [Bus M]

/-- The operands of an operation denote its operand and the sites that its result goes to. -/
lemma operated?_eq (m : Machine M) (d : Descriptor)
    (hop : op.onByte? = some (operation, source, copy?)) {next next' : UInt16} {bytes : List UInt8}
    {operands : Operands} (hagrees : (source.slot.value next bytes).Agrees operands next') :
    m.operated? d ⟨operation, source.slot.value next bytes,
        copy?.map fun register => Value.text register.name⟩ =
      some ((m.passed d).withResult
        (operation.outcome m.registers.flags m.registers.main.a (m.byteFrom operands source))
        (operation.targets?.getD (source.sites m.registers operands copy?))) := by
  have htargets : ByteInstruction.targets? ⟨operation, source.slot.value next bytes,
        copy?.map fun register => Value.text register.name⟩ m.registers =
      some (operation.targets?.getD (source.sites m.registers operands copy?)) := by
    cases source with
    | place p =>
      have hsite := Place.byteSite?_value m.registers hagrees
      have hsites : (p.slot.value next bytes :: (copy?.map fun register =>
            Value.text register.name).toList).mapM (Value.byteSite? m.registers) =
          some (p.site m.registers operands :: copy?.toList.map .reg) := by
        cases copy? <;> simp [hsite]
      rw [ByteInstruction.targets?, ByteSource.slot, hsites, Option.or_some]
      rfl
    | immediate =>
      -- only an operation of the accumulator works on a byte of the instruction
      cases op with
      | arithmetic op source =>
        obtain ⟨rfl, -, -⟩ := Option.some.inj hop
        cases op <;> rfl
      | _ => simp [Operation.onByte?] at hop
  simp only [operated?, byteOf?_value m hagrees, htargets]
  rfl

end Operated

variable {m : Machine Memory} {d : Descriptor}

/-- **A step over an operation on a byte works on the operand that its template names.**  It goes
behind the instruction and moves the refresh register on; apart from that it changes only the flags
and where the result goes, and resetting and setting bits changes no flag, counting and testing bits
not the carry flag.

**Proof sketch.** The template is that of the operation that is executed, so the operands of the
instruction name the operation and denote its operand and the sites of its result.  What is executed
puts the same result to the same sites. -/
theorem step_byteOperation (hrunning : m.isHalted = false)
    (hd : Descriptor.decode m.read m.registers.pc = .ok d)
    (hbyte : d.template.isByteOperation = true) :
    ∃ (i : Instruction) (x : ByteInstruction) (after : Machine Memory),
      m.memory.buffer.decode? m.registers.pc = some i ∧ i.descriptor = d ∧
      ByteInstruction.ofValues? d.template.mnemonic i.values = some x ∧
      m.operated? d x = some after ∧
      m.step = (after,
        .ok ⟨m.registers.pc, m.registers.pc + UInt16.ofNat d.size, .running, []⟩) ∧
      (d.template.mnemonic ∈ [Mnemonic.res, .set] → after.registers.flags = m.registers.flags) ∧
      (d.template.mnemonic ∈ [Mnemonic.inc, .dec, .bit] →
        after.registers.flags.carry = m.registers.flags.carry) := by
  obtain ⟨hmem, -, -⟩ := Descriptor.of_decode hd
  obtain ⟨op, hop, hstep⟩ := step_of_passOn hrunning hd
  obtain ⟨operation, source, copy?, honByte, hfree, htemplate⟩ :=
    Operation.onByte?_eq hmem hop hbyte
  obtain ⟨bytes, hvalues⟩ : ∃ bytes, (Instruction.standing m.read m.registers.pc d).values =
      slotValues (m.registers.pc + UInt16.ofNat d.size) (operation.template source copy?).slots
        bytes := by
    rw [← htemplate, ← Instruction.next_standing]
    exact ⟨_, rfl⟩
  have hagrees := @Operation.agrees_of_mem_values d hmem op hop m.read m.registers.pc
    (source.slot.value (m.registers.pc + UInt16.ofNat d.size) bytes)
    (by simp [hvalues, ByteOperation.slotValues_template])
  have hafter := hstep _ ((m.refreshed d.space).execute_onByte honByte hfree _ _)
  rw [goTo_withResult, goTo_refreshed hrunning, byteFrom_refreshed, sites_refreshed] at hafter
  have hflags (result : UInt8 × Flags) (targets : List ByteSite) :
      ((m.passed d).withResult result targets).registers.flags = result.2 :=
    ((m.passed d).keepsRest_withResult result targets).flags
  refine ⟨_, _, _, Memory.decode?_buffer hd, rfl, ?_, m.operated?_eq d honByte hagrees, hafter,
    fun h => (hflags _ _).trans (ByteOperation.flags_outcome ?_ _ _ _),
    fun h => (congrArg Flags.carry (hflags _ _)).trans (ByteOperation.carry_outcome ?_ _ _ _)⟩
  · rw [htemplate]
    exact (congrArg _ hvalues).trans (ByteInstruction.ofValues?_template ..)
  · rwa [htemplate] at h
  · rwa [htemplate] at h

/-- A rotation of an indexed cell with a copy sets the cell and the register, and the bit that
leaves the byte sets the carry flag. -/
theorem step_byteOperation_copy :
    ∃ (m after : Machine Memory) (d : Descriptor) (x : ByteInstruction),
      m.memory = Memory.blank.load 0 [0xDD, 0xCB, 0x05, 0x00, 0x00, 0x81] ∧
        m.operated? d x = some after ∧ m.step.1 = after ∧ after.memory.read 5 = 0x03 ∧
        after.registers.main.b = 0x03 ∧ after.registers.flags.carry = true := by
  obtain ⟨d, hd⟩ := exists_of_isOk
    (x := Descriptor.decode
      (start (Memory.blank.load 0 [0xDD, 0xCB, 0x05, 0x00, 0x00, 0x81]) {}).read
      (start (Memory.blank.load 0 [0xDD, 0xCB, 0x05, 0x00, 0x00, 0x81]) {}).registers.pc)
    (by decide +kernel)
  have hbyte : (Except.toOption (Descriptor.decode
      (start (Memory.blank.load 0 [0xDD, 0xCB, 0x05, 0x00, 0x00, 0x81]) {}).read
      (start (Memory.blank.load 0 [0xDD, 0xCB, 0x05, 0x00, 0x00, 0x81]) {}).registers.pc)).map
        (·.template.isByteOperation) = some true := by
    decide +kernel
  rw [hd] at hbyte
  obtain ⟨i, x, after, -, -, -, hafter, hstep, -⟩ :=
    step_byteOperation rfl hd (Option.some.inj hbyte)
  have hresult : let rotated :=
        (start (Memory.blank.load 0 [0xDD, 0xCB, 0x05, 0x00, 0x00, 0x81]) {}).step.1
      rotated.memory.read 5 = 0x03 ∧ rotated.registers.main.b = 0x03 ∧
        rotated.registers.flags.carry = true := by
    decide +kernel
  obtain rfl : _ = after := congrArg Prod.fst hstep
  exact ⟨_, _, d, x, rfl, hafter, rfl, hresult⟩

end Machine

end Z80
