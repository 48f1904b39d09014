import Z80.Proofs.Machine.Operand

/-!
# Accesses to ports

An instruction reads one port, or writes one, or leaves all of them alone.  Which one it is and what
is written is said by the mnemonic and the operands of its template: a port is a number or the
register `c`, a byte that is written is a register, zero, or the cell at `hl`.

## Main definitions

* `Z80.PortAccess` — a read of a port or a write to one.
* `Z80.Machine.access?` — the access in the next step of a machine, by the catalog.
* `Z80.Board.behind` — the board behind an access, and what it reports.
* `Z80.Machine.Delivers` — whether a machine has received a byte from a port.

## Main results

* `Z80.Operation.portTemplate?_eq` — the operations with an access are those of the templates with
  one.
* `Z80.Machine.step_board` — a step makes the access of its instruction and no other.
* `Z80.Machine.step_delivers` — a read gives the byte in the latch of the port.

## Design

The access is computed from the machine in front of a step.  What an instruction changes before it
is made, the refresh register and the registers of a round of a block instruction, has no part in
it.
-/

namespace Z80

/-- What an instruction does with a port. -/
inductive PortAccess where
  | read (port : UInt8)
  | write (port v : UInt8)
  deriving DecidableEq, Repr

/-! ### Operands -/

/-- The port that an operand denotes: a number, or the one that `c` selects. -/
def Value.port? (r : Registers) : Value → Option UInt8
  | port b => some b
  | text s => if s = "(c)" then some r.main.c else none
  | _ => none

/-- The byte that an operand sends to a port: a register, or zero. -/
def Value.sent? (r : Registers) : Value → Option UInt8
  | text s => if s = "0" then some 0 else (ByteReg.ofName? s).map r.byte
  | _ => none

/-- The name of a byte register is not zero. -/
@[simp]
lemma Value.sent?_name (r : Registers) (register : ByteReg) :
    (text register.name).sent? r = some (r.byte register) := by
  have hname : register.name ≠ "0" := by
    cases register with
    | half i high => cases i <;> cases high <;> decide
    | _ => decide
  simp [sent?, hname]

/-- The block instructions that read a port. -/
def Mnemonic.portReading : List Mnemonic :=
  [.ini, .ind, .inir, .indr]

/-- The block instructions that write to a port. -/
def Mnemonic.portWriting : List Mnemonic :=
  [.outi, .outd, .otir, .otdr]

namespace Machine

variable {M : Type} [Bus M]

/-- The access of an instruction, by its mnemonic and its operands. -/
def accessOf? (m : Machine M) (mnemonic : Mnemonic) (values : List Value) : Option PortAccess :=
  match mnemonic, values with
  | .in_, [_, port] | .in_, [port] => (port.port? m.registers).map .read
  | .out, [port, source] => do
    let port ← port.port? m.registers
    let v ← source.sent? m.registers
    return .write port v
  | _, _ =>
    if mnemonic ∈ Mnemonic.portReading then some (.read m.registers.main.c)
    else if mnemonic ∈ Mnemonic.portWriting then
      some (.write m.registers.main.c (m.read (m.registers.word .hl)))
    else none

/-- The access in the next step of a machine. -/
def access? (m : Machine M) : Option PortAccess :=
  if m.isHalted then none
  else
    match Descriptor.decode m.read m.registers.pc with
    | .ok d =>
      m.accessOf? d.template.mnemonic (Instruction.standing m.read m.registers.pc d).values
    | .error _ => none

end Machine

/-! ### Templates -/

/-- The template of the operations with an access to a port. -/
def Operation.portTemplate? : Operation → Option Template
  | inputDirect => some ⟨.in_, [.named "a", .port]⟩
  | outputDirect => some ⟨.out, [.port, .named "a"]⟩
  | input (some target) => some ⟨.in_, [.named target.name, .named "(c)"]⟩
  | input none => some ⟨.in_, [.named "(c)"]⟩
  | output (some source) => some ⟨.out, [.named "(c)", .named source.name]⟩
  | output none => some ⟨.out, [.named "(c)", .literal "0"]⟩
  | block .input downward repeats =>
    some ⟨match repeats, downward with
      | false, false => .ini
      | false, true => .ind
      | true, false => .inir
      | true, true => .indr, []⟩
  | block .output downward repeats =>
    some ⟨match repeats, downward with
      | false, false => .outi
      | false, true => .outd
      | true, false => .otir
      | true, true => .otdr, []⟩
  | _ => none

/-- The mnemonics of the instructions with an access to a port. -/
def Mnemonic.accessing : List Mnemonic :=
  [.in_, .out] ++ portReading ++ portWriting

/-- **The operations with an access to a port are those of the templates with one.** -/
theorem Operation.portTemplate?_eq {d : Descriptor} (hd : d ∈ Descriptor.all) {op : Operation}
    (hop : ofOpcode? d.space d.byte = some op) :
    op.portTemplate? =
      if d.template.mnemonic ∈ Mnemonic.accessing then some d.template else none := by
  have key := Descriptor.of_mem_all
    (P := fun d => (ofOpcode? d.space d.byte).all fun op => op.portTemplate? =
      if d.template.mnemonic ∈ Mnemonic.accessing then some d.template else none)
    (by decide +kernel) hd
  simpa [hop] using key

/-- The template of an operation with an access. -/
lemma Operation.template_eq {d : Descriptor} (hd : d ∈ Descriptor.all) {op : Operation}
    (hop : ofOpcode? d.space d.byte = some op) {template : Template}
    (h : op.portTemplate? = some template) : d.template = template := by
  rw [portTemplate?_eq hd hop] at h
  split at h
  · exact Option.some.inj h
  · simp at h

/-- The mnemonic of an operation without an access. -/
lemma Operation.mnemonic_notMem {d : Descriptor} (hd : d ∈ Descriptor.all) {op : Operation}
    (hop : ofOpcode? d.space d.byte = some op) (h : op.portTemplate? = none) :
    d.template.mnemonic ∉ Mnemonic.accessing := by
  rw [portTemplate?_eq hd hop] at h
  exact fun hmem => by simp [hmem] at h

/-! ### Accesses of operations -/

namespace Machine

variable {M : Type} [Bus M]

/-- The access of an operation with operand bytes. -/
def accessBy? (m : Machine M) (operands : Operands) : Operation → Option PortAccess
  | .inputDirect => some (.read operands.byte)
  | .outputDirect => some (.write operands.byte m.registers.main.a)
  | .input _ => some (.read m.registers.main.c)
  | .output source =>
    some (.write m.registers.main.c ((source.map m.registers.byte).getD 0))
  | .block .input _ _ => some (.read m.registers.main.c)
  | .block .output _ _ =>
    some (.write m.registers.main.c (m.read (m.registers.word .hl)))
  | _ => none

/-- The operands of an instruction are those in the slots of its template. -/
lemma values_standing {read : UInt16 → UInt8} {address : UInt16} {d : Descriptor}
    {template : Template} (h : d.template = template) :
    (Instruction.standing read address d).values =
      slotValues (Instruction.standing read address d).next template.slots
        ((Instruction.standing read address d).bytes.drop d.space.operandOffset) := by
  rw [← h]
  rfl

/-- Instructions with other mnemonics have no access. -/
lemma accessOf?_eq_none (m : Machine M) {mnemonic : Mnemonic}
    (h : mnemonic ∉ Mnemonic.accessing) (values : List Value) :
    m.accessOf? mnemonic values = none := by
  simp only [Mnemonic.accessing, List.mem_append, List.mem_cons, List.not_mem_nil, or_false,
    not_or] at h
  obtain ⟨⟨⟨hin, hout⟩, hreading⟩, hwriting⟩ := h
  unfold accessOf?
  split
  · exact absurd rfl hin
  · exact absurd rfl hin
  · exact absurd rfl hout
  · rw [if_neg hreading, if_neg hwriting]

/-- **An instruction has the access of its operation.** -/
theorem accessOf?_eq (m : Machine M) {d : Descriptor} (hd : d ∈ Descriptor.all) {op : Operation}
    (hop : Operation.ofOpcode? d.space d.byte = some op) (address : UInt16) :
    m.accessOf? d.template.mnemonic (Instruction.standing m.read address d).values =
      m.accessBy? (op.fetch m.read (d.space.operandsAt address)).1 op := by
  have htemplate {template : Template} := @Operation.template_eq d hd op hop template
  have hvalues {template : Template} := @values_standing m.read address d template
  have hagrees {value : Value} :=
    @Operation.agrees_of_mem_values d hd op hop m.read address value
  have hnone (h : op.portTemplate? = none) :=
    m.accessOf?_eq_none (Operation.mnemonic_notMem hd hop h)
  cases op with
  | inputDirect =>
    rw [hvalues (htemplate rfl)] at hagrees
    have hport := hagrees (List.mem_cons_of_mem _ List.mem_cons_self)
    rw [hvalues (htemplate rfl), htemplate rfl]
    exact congrArg (fun port => some (PortAccess.read port)) hport
  | outputDirect =>
    rw [hvalues (htemplate rfl)] at hagrees
    have hport := hagrees List.mem_cons_self
    rw [hvalues (htemplate rfl), htemplate rfl]
    exact congrArg (fun port => some (PortAccess.write port m.registers.main.a)) hport
  | input target => cases target <;> rw [hvalues (htemplate rfl), htemplate rfl] <;> rfl
  | output source =>
    cases source with
    | none =>
      rw [hvalues (htemplate rfl), htemplate rfl]
      rfl
    | some source =>
      rw [hvalues (htemplate rfl), htemplate rfl]
      simp [slotValues, Slot.value, accessOf?, Value.port?, accessBy?]
  | block kind downward repeats =>
    cases kind with
    | copy | compare => exact hnone rfl _
    | input | output =>
      cases repeats <;> cases downward <;> rw [hvalues (htemplate rfl), htemplate rfl] <;> rfl
  | _ => exact hnone rfl _

end Machine

/-! ### Boards -/

/-- The board behind an access to a port, and what it reports, given the interrupt register and
memory. -/
def Board.behind (board : Board) (i : UInt8) (readWord : UInt16 → UInt16) :
    Option PortAccess → Board × Option Event
  | none => (board, none)
  | some (.read port) => (board, (board.input port).2)
  | some (.write port v) => board.output port v i readWord

namespace Machine

variable {M : Type} [Bus M]

/-- A byte that is put at a place leaves the board as it is. -/
lemma board_put (m : Machine M) (operands : Operands) (place : Place) (v : UInt8) :
    (m.put operands place v).board = m.board := by
  cases place <;> rfl

/-- **An operation makes its access and no other.** -/
theorem board_execute (m : Machine M) (op : Operation) (operands : Operands) (next : UInt16) :
    ((m.execute op operands next).machine.board, (m.execute op operands next).events) =
      let behind := m.board.behind m.registers.i (Bus.readWord m.memory) (m.accessBy? operands op)
      (behind.1, behind.2.toList) := by
  cases op with
  | load target source => exact congrArg (·, []) (m.board_put operands target _)
  | increment place | decrement place => exact congrArg (·, []) (board_put _ operands place _)
  | shift shift place copy => cases copy <;> exact congrArg (·, []) (board_put _ operands place _)
  | resetBit n place copy => cases copy <;> exact congrArg (·, []) (board_put _ operands place _)
  | setBit n place copy => cases copy <;> exact congrArg (·, []) (board_put _ operands place _)
  | call condition =>
    simp only [execute, callIf]
    split <;> rfl
  | ret condition =>
    simp only [execute, returnIf]
    split <;> rfl
  | input target => cases target <;> rfl
  | block kind downward repeats => cases kind <;> rfl
  | _ => rfl

/-- A step that succeeds does nothing on a halted machine, and otherwise executes the operation of
an instruction, whose access is that of the step. -/
lemma step_cases {m after : Machine M} {report : StepReport} (h : m.step = (after, .ok report)) :
    (m.access? = none ∧ after = m ∧ report.events = []) ∨
    ∃ (d : Descriptor) (op : Operation) (operands : Operands) (next address : UInt16)
      (isHalted : Bool),
      Descriptor.decode m.read m.registers.pc = .ok d ∧
      Operation.ofOpcode? d.space d.byte = some op ∧ m.access? = m.accessBy? operands op ∧
      after = ((m.refreshed d.space).execute op operands next).machine.goTo address isHalted ∧
      report.events = ((m.refreshed d.space).execute op operands next).events := by
  cases hhalted : m.isHalted with
  | true =>
    simp only [step, hhalted, ↓reduceIte, Prod.mk.injEq, Except.ok.injEq] at h
    obtain ⟨rfl, rfl⟩ := h
    exact .inl ⟨by simp [access?, hhalted], rfl, rfl⟩
  | false =>
    cases hd : Descriptor.decode m.read m.registers.pc with
    | error bytes => simp [step, hhalted, hd] at h
    | ok d =>
      obtain ⟨op, hop, -, hstep⟩ := step_eq hhalted hd
      rw [hstep, Prod.mk.injEq, Except.ok.injEq] at h
      obtain ⟨rfl, rfl⟩ := h
      refine .inr ⟨d, op, _, _, _, _, rfl, hop, ?_, rfl, rfl⟩
      simp only [access?, hhalted, hd, Bool.false_eq_true, ↓reduceIte]
      exact m.accessOf?_eq (Descriptor.of_decode hd).1 hop m.registers.pc

/-- **A step makes the access of its instruction and no other.** -/
theorem step_board {m after : Machine M} {report : StepReport}
    (h : m.step = (after, .ok report)) :
    (after.board, report.events) =
      let behind := m.board.behind m.registers.i (Bus.readWord m.memory) m.access?
      (behind.1, behind.2.toList) := by
  rcases step_cases h with ⟨hnone, rfl, hevents⟩ | ⟨d, op, operands, next, _, _, -, -, haccess,
    rfl, hevents⟩
  · rw [hnone, hevents]
    rfl
  · rw [haccess, hevents]
    exact board_execute (m.refreshed d.space) op operands next

/-! ### Bytes that are read -/

/-- Whether the machine behind an instruction has received a byte from a port: in the register that
is the first operand, in the flags if there is none, and behind a block instruction in the cell to
which `hl` pointed. -/
def Delivers (m after : Machine M) (v : UInt8) (mnemonic : Mnemonic) (values : List Value) : Prop :=
  match mnemonic, values with
  | .in_, [target, _] => after.byteOf? target = some v
  | .in_, _ =>
    after.registers.flags =
      { m.registers.flags with
        sign := isNegative v
        zero := v = 0
        half := false
        parity := hasEvenParity v
        subtract := false }
  | _, _ => after.memory = Bus.write m.memory (m.registers.word .hl) v

/-- Whether the machine behind a step has received a byte from a port. -/
def Receives (m after : Machine M) (v : UInt8) : Prop :=
  ∃ d, Descriptor.decode m.read m.registers.pc = .ok d ∧
    m.Delivers after v d.template.mnemonic (Instruction.standing m.read m.registers.pc d).values

/-- A byte register holds the same behind a jump. -/
lemma byteOf?_goTo (m : Machine M) (register : ByteReg) (address : UInt16) (isHalted : Bool) :
    (m.goTo address isHalted).byteOf? (.text register.name) =
      some (m.registers.byte register) := by
  simp only [byteOf?, Value.byteSite?_name, Option.map_some, byteAt]
  cases register with
  | half i high => cases i <;> cases high <;> rfl
  | _ => rfl

/-- **A read gives the byte in the latch of the port.** -/
theorem step_receives {m after : Machine M} {report : StepReport}
    (h : m.step = (after, .ok report)) {port : UInt8} (hread : m.access? = some (.read port)) :
    m.Receives after (m.board.ports.read port) := by
  rcases step_cases h with ⟨hnone, -⟩ | ⟨d, op, operands, next, address, isHalted, hd, hop,
    haccess, rfl, -⟩
  · simp [hnone] at hread
  · have htemplate {template : Template} :=
      @Operation.template_eq d (Descriptor.of_decode hd).1 op hop template
    have hvalues {template : Template} := @values_standing m.read m.registers.pc d template
    rw [haccess] at hread
    refine ⟨d, hd, ?_⟩
    cases op with
    | inputDirect =>
      rw [hvalues (htemplate rfl), htemplate rfl]
      obtain rfl := PortAccess.read.inj (Option.some.inj hread)
      exact byteOf?_goTo _ .a _ _
    | input target =>
      obtain rfl := PortAccess.read.inj (Option.some.inj hread)
      cases target with
      | none =>
        rw [hvalues (htemplate rfl), htemplate rfl]
        rfl
      | some target =>
        rw [hvalues (htemplate rfl), htemplate rfl]
        refine (byteOf?_goTo _ target _ _).trans (congrArg some ?_)
        exact (Registers.byte_setByte _ target target _).trans (if_pos rfl)
    | block kind downward repeats =>
      cases kind with
      | input =>
        obtain rfl := PortAccess.read.inj (Option.some.inj hread)
        cases repeats <;> cases downward <;> rw [hvalues (htemplate rfl), htemplate rfl] <;> rfl
      | _ => simp [accessBy?] at hread
    | _ => simp [accessBy?] at hread

end Machine

end Z80
