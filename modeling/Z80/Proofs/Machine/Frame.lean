import Z80.Proofs.Machine.Operand

/-!
# What instructions leave alone

The parts of a machine that an instruction may change can be told from its template: the stack
pointer, say, from its mnemonic or its first operand, and the index registers from the prefix alone.
Everything else is behind the instruction what it is behind one that does nothing.

## Main definitions

* `Z80.Part` — the parts of a machine, with `Z80.Part.Kept`.
* `Z80.Operation.changes` — the parts that an operation may change.
* `Z80.Descriptor.mayChange` — the parts that an instruction may change, by its template and prefix.
* `Z80.Machine.written` — memory with bytes written one behind the other.

## Main results

* `Z80.Machine.kept_execute`, `Z80.Machine.memory_execute` — what operations leave alone.
* `Z80.Operation.mayChange_of_mem_changes` — an operation changes nothing else than its template
  says.
* `Z80.Machine.step_frame` — what a step leaves alone.

## Design

The refresh register is a part of its own because only a load writes to it.  That every step moves
it on is no change by the operation, and is said by `Z80.Machine.passed`.
-/

namespace Z80

/-- The parts of a machine that few instructions change. -/
inductive Part where
  /-- The bank that is not in use. -/
  | shadow
  | flags
  | ix
  | iy
  | stackPointer
  | interruptRegister
  | refreshRegister
  /-- Both interrupt flip-flops. -/
  | flipFlops
  | interruptMode
  /-- The latches of the ports, and the devices behind them. -/
  | ports
  deriving DecidableEq, Repr

namespace Part

/-- Whether a part of a machine is as it was. -/
def Kept {M : Type} (before after : Machine M) : Part → Prop
  | shadow => after.registers.shadow = before.registers.shadow
  | flags => after.registers.flags = before.registers.flags
  | ix => after.registers.ix = before.registers.ix
  | iy => after.registers.iy = before.registers.iy
  | stackPointer => after.registers.sp = before.registers.sp
  | interruptRegister => after.registers.i = before.registers.i
  | refreshRegister => after.registers.r = before.registers.r
  | flipFlops =>
    (after.registers.iff1, after.registers.iff2) =
      (before.registers.iff1, before.registers.iff2)
  | interruptMode => after.registers.mode = before.registers.mode
  | ports => after.board = before.board

section Kept

variable {M : Type} {part : Part} {first middle last : Machine M}

/-- A part of a machine is what it is. -/
lemma kept_refl (part : Part) (m : Machine M) : part.Kept m m := by
  cases part <;> simp [Kept]

/-- A part that is kept and kept again is kept. -/
lemma Kept.trans (h : part.Kept first middle) (h' : part.Kept middle last) :
    part.Kept first last := by
  cases part <;> simp_all [Kept]

end Kept

end Part

/-! ### What operations change -/

/-- The part that an index register is. -/
def Index.part : Index → Part
  | ix => .ix
  | iy => .iy

/-- The part that a byte register belongs to. -/
def ByteReg.part? : ByteReg → Option Part
  | half i _ => some i.part
  | _ => none

/-- The part that a word register belongs to; the flags are half of one. -/
def WordReg.part? : WordReg → Option Part
  | af => some .flags
  | sp => some .stackPointer
  | index i => some i.part
  | bc | de | hl => none

/-- The part that a place belongs to. -/
def Place.part? : Place → Option Part
  | reg register => register.part?
  | cell _ => none

/-- The part that a register with a purpose of its own is. -/
def ControlReg.part : ControlReg → Part
  | interrupt => .interruptRegister
  | refresh => .refreshRegister

/-- The parts that an operation may change. -/
def Operation.changes : Operation → List Part
  | nop | halt | storeWord _ | exchangeDeHl => []
  | jump _ | jumpTo _ | jumpRelative _ | loop => []
  | disableInterrupts | enableInterrupts => [.flipFlops]
  | interruptMode _ => [.interruptMode]
  | load target _ => target.part?.toList
  | loadWord target _ => target.part?.toList
  | loadControl target => [target.part]
  | push _ | call _ | ret _ | restart _ => [.stackPointer]
  | returnFromInterrupt => [.stackPointer, .flipFlops]
  | pop target => .stackPointer :: target.part?.toList
  | exchangeAf => [.shadow, .flags]
  | exchangeGeneral => [.shadow]
  | exchangeTop register | incrementWord register | decrementWord register =>
    register.part?.toList
  | increment place | decrement place => .flags :: place.part?.toList
  | addWord target _ => .flags :: target.part?.toList
  | shift _ place copy => .flags :: place.part?.toList ++ (copy.bind ByteReg.part?).toList
  | resetBit _ place copy | setBit _ place copy =>
    place.part?.toList ++ (copy.bind ByteReg.part?).toList
  | inputDirect => []
  | outputDirect | output _ => [.ports]
  | input target => .flags :: (target.bind ByteReg.part?).toList
  | block .output _ _ => [.flags, .ports]
  | storeControl _ | arithmetic _ _ | adcWord _ | sbcWord _ | decimalAdjust | complement | negate
  | setCarry | complementCarry | rotateAccumulator _ | testBit _ _ | rotateDigits _
  | block _ _ _ => [.flags]

namespace Machine

variable {M : Type} {part : Part}

/-- A byte register that is set changes the part that it belongs to. -/
lemma kept_setByte (m : Machine M) {register : ByteReg} (v : UInt8)
    (h : part ∉ register.part?.toList) : part.Kept m (m.mapRegisters (·.setByte register v)) := by
  cases register with
  | half i high =>
    cases i <;> cases high <;> cases part <;> first | rfl | exact absurd (by decide) h
  | _ => cases part <;> rfl

/-- A word register that is set changes the part that it belongs to. -/
lemma kept_setWord (m : Machine M) {register : WordReg} (f : Registers → UInt16)
    (h : part ∉ register.part?.toList) :
    part.Kept m (m.mapRegisters fun r => r.setWord register (f r)) := by
  cases register with
  | af | sp => cases part <;> first | rfl | exact absurd (by decide) h
  | index i => cases i <;> cases part <;> first | rfl | exact absurd (by decide) h
  | _ => cases part <;> rfl

/-- The registers that exist twice are no part, except for the flags. -/
lemma kept_main (m : Machine M) (f : Registers → Bank) (h : part ≠ .flags) :
    part.Kept m (m.mapRegisters fun r => { r with main := f r }) := by
  cases part <;> first | rfl | exact absurd rfl h

/-- Flags that are set are a part. -/
lemma kept_setFlags (m : Machine M) (f : Registers → Flags) (h : part ≠ .flags) :
    part.Kept m (m.mapRegisters fun r => r.setFlags (f r)) :=
  m.kept_main (fun r => { r.main with flags := f r }) h

/-- An accumulator that is set with its flags changes the flags. -/
lemma kept_setResult (m : Machine M) (f : Registers → UInt8 × Flags) (h : part ≠ .flags) :
    part.Kept m (m.mapRegisters fun r => r.setResult (f r)) :=
  m.kept_main (fun r => { r.main with a := (f r).1, flags := (f r).2 }) h

/-- A word that is set with its flags changes the flags and the part that the word belongs to. -/
lemma kept_setWordResult (m : Machine M) (register : WordReg) (f : Registers → UInt16 × Flags)
    (h : part ∉ Part.flags :: register.part?.toList) :
    part.Kept m (m.mapRegisters fun r => setWordResult r register (f r)) :=
  (m.kept_setFlags (fun r => (f r).2) (List.ne_of_not_mem_cons h)).trans
    (kept_setWord _ (fun _ => (f m.registers).1) (List.not_mem_of_not_mem_cons h))

/-- A word that is taken from the stack moves the stack pointer. -/
lemma kept_dropWord (m : Machine M) (h : part ≠ .stackPointer) : part.Kept m m.dropWord := by
  cases part <;> first | rfl | exact absurd rfl h

/-- A jump changes no part. -/
lemma kept_goTo {m after : Machine M} (h : part.Kept m after) (address address' : UInt16)
    (isHalted isHalted' : Bool) :
    part.Kept (m.goTo address isHalted) (after.goTo address' isHalted') := by
  cases part <;> exact h

variable [Bus M]

/-- A byte that is written to memory changes no part. -/
lemma kept_write (m : Machine M) (address : UInt16) (v : UInt8) (part : Part) :
    part.Kept m (m.write address v) := by
  cases part <;> rfl

/-- A word that is written to memory changes no part. -/
lemma kept_writeWord (m : Machine M) (address w : UInt16) (part : Part) :
    part.Kept m (m.writeWord address w) := by
  cases part <;> rfl

/-- A byte that is put at a place changes the part that the place belongs to. -/
lemma kept_put (m : Machine M) (operands : Operands) {place : Place} (v : UInt8)
    (h : part ∉ place.part?.toList) : part.Kept m (m.put operands place v) := by
  cases place with
  | reg register => exact m.kept_setByte v h
  | cell c => exact m.kept_write _ v part

/-- A byte that is put at a place and in a register changes the parts that these belong to. -/
lemma kept_putCopy (m : Machine M) (operands : Operands) {place : Place} {copy : Option ByteReg}
    (v : UInt8) (h : part ∉ place.part?.toList ++ (copy.bind ByteReg.part?).toList) :
    part.Kept m (m.putCopy operands place copy v) := by
  rw [List.mem_append, not_or] at h
  cases copy with
  | none => exact m.kept_put operands v h.1
  | some register => exact (m.kept_put operands v h.1).trans (kept_setByte _ v h.2)

/-- A word on top of the stack is below where the stack pointer was. -/
lemma kept_pushWord (m : Machine M) (w : UInt16) (h : part ≠ .stackPointer) :
    part.Kept m (m.pushWord w) := by
  cases part <;> first | rfl | exact absurd rfl h

/-- A call changes the stack pointer. -/
lemma kept_callIf (m : Machine M) (taken : Bool) (target next : UInt16)
    (h : part ≠ .stackPointer) : part.Kept m (m.callIf taken target next).machine := by
  cases taken with
  | true => exact m.kept_pushWord next h
  | false => exact part.kept_refl m

/-- A return changes the stack pointer. -/
lemma kept_returnIf (m : Machine M) (taken : Bool) (h : part ≠ .stackPointer) :
    part.Kept m (m.returnIf taken).machine := by
  cases taken with
  | true => exact m.kept_dropWord h
  | false => exact part.kept_refl m

/-- A write to a port changes the board. -/
lemma kept_output (m : Machine M) (port v : UInt8) (h : part ≠ .ports) :
    part.Kept m (m.output port v).1 := by
  cases part <;> first | rfl | exact absurd rfl h

/-- A round of a block instruction moves pointers, counts and changes flags, and one kind writes to
a port. -/
lemma kept_blockStep (m : Machine M) {kind : BlockKind} (downward : Bool)
    (h : part ≠ .flags) (hports : kind = .output → part ≠ .ports) :
    part.Kept m (m.blockStep kind downward).1 := by
  cases kind with
  | copy => exact (m.kept_write _ _ part).trans (kept_main _ _ h)
  | compare => exact m.kept_main _ h
  | input => exact (m.kept_write _ _ part).trans (kept_main _ _ h)
  | output =>
    have hcount : part.Kept m (m.mapRegisters fun r =>
        countByte (r.setWord .hl (moved downward (m.registers.word .hl)))) :=
      m.kept_main _ h
    exact hcount.trans (kept_output _ _ _ (hports rfl))

/-- **An operation keeps the parts that it does not name.** -/
theorem kept_execute (m : Machine M) {op : Operation} (operands : Operands) (next : UInt16)
    (h : part ∉ op.changes) : part.Kept m (m.execute op operands next).machine := by
  cases op with
  | disableInterrupts | enableInterrupts | interruptMode | exchangeGeneral =>
    cases part <;> first | rfl | exact absurd List.mem_cons_self h
  | exchangeAf => cases part <;> first | rfl | exact absurd (by decide) h
  | load target source => exact m.kept_put operands _ h
  | loadWord target source => exact m.kept_setWord _ h
  | storeWord source => exact m.kept_writeWord _ _ part
  | incrementWord register => exact m.kept_setWord _ h
  | decrementWord register => exact m.kept_setWord _ h
  | loadControl target => cases target <;> cases part <;> first | rfl | exact absurd (by decide) h
  | storeControl source => exact m.kept_setResult _ (List.ne_of_not_mem_cons h)
  | push source => exact m.kept_pushWord _ (List.ne_of_not_mem_cons h)
  | pop target =>
    exact (m.kept_dropWord (List.ne_of_not_mem_cons h)).trans
      (kept_setWord _ _ (List.not_mem_of_not_mem_cons h))
  | exchangeTop register => exact (m.kept_writeWord _ _ part).trans (kept_setWord _ _ h)
  | increment place =>
    exact (m.kept_setFlags _ (List.ne_of_not_mem_cons h)).trans
      (kept_put _ operands _ (List.not_mem_of_not_mem_cons h))
  | decrement place =>
    exact (m.kept_setFlags _ (List.ne_of_not_mem_cons h)).trans
      (kept_put _ operands _ (List.not_mem_of_not_mem_cons h))
  | addWord target source => exact m.kept_setWordResult target _ h
  | adcWord source => exact m.kept_setWordResult .hl _ h
  | sbcWord source => exact m.kept_setWordResult .hl _ h
  | setCarry => exact m.kept_setFlags _ (List.ne_of_not_mem_cons h)
  | complementCarry => exact m.kept_setFlags _ (List.ne_of_not_mem_cons h)
  | testBit n place => exact m.kept_setFlags _ (List.ne_of_not_mem_cons h)
  | shift shift place copy =>
    exact (m.kept_setFlags _ (List.ne_of_not_mem_cons h)).trans
      (kept_putCopy _ operands _ (List.not_mem_of_not_mem_cons h))
  | resetBit n place copy => exact m.kept_putCopy operands _ h
  | setBit n place copy => exact m.kept_putCopy operands _ h
  | rotateDigits upward =>
    exact (m.kept_write _ _ part).trans (kept_setResult _ _ (List.ne_of_not_mem_cons h))
  | complement | rotateAccumulator => exact m.kept_setResult _ (List.ne_of_not_mem_cons h)
  | input target =>
    cases target with
    | none => exact m.kept_setFlags _ (List.ne_of_not_mem_cons h)
    | some register =>
      exact (m.kept_setFlags _ (List.ne_of_not_mem_cons h)).trans
        (kept_setByte _ _ (List.not_mem_of_not_mem_cons h))
  | arithmetic | decimalAdjust | negate =>
    exact m.kept_setResult _ (List.ne_of_not_mem_cons h)
  | call condition => exact m.kept_callIf _ _ _ (List.ne_of_not_mem_cons h)
  | ret condition => exact m.kept_returnIf _ (List.ne_of_not_mem_cons h)
  | restart address => exact m.kept_callIf _ _ _ (List.ne_of_not_mem_cons h)
  | outputDirect => exact m.kept_output _ _ (List.ne_of_not_mem_cons h)
  | output source => exact m.kept_output _ _ (List.ne_of_not_mem_cons h)
  | returnFromInterrupt =>
    have hflipFlops : part.Kept m (m.mapRegisters fun r => { r with iff1 := r.iff2 }) := by
      cases part <;> first | rfl | exact absurd (by decide) h
    exact hflipFlops.trans (kept_returnIf _ true (List.ne_of_not_mem_cons h))
  | block kind downward repeats =>
    refine m.kept_blockStep downward ?_ ?_
    · rintro rfl
      cases kind <;> exact h List.mem_cons_self
    · rintro rfl rfl
      exact h (List.mem_cons_of_mem _ List.mem_cons_self)
  | nop | halt | exchangeDeHl | jump | jumpTo | jumpRelative | loop | inputDirect =>
    cases part <;> rfl

/-! ### Memory -/

/-- Memory with bytes written one behind the other, each at an address. -/
def written (memory : M) (writes : List (UInt16 × UInt8)) : M :=
  writes.foldl (fun memory w => Bus.write memory w.1 w.2) memory

/-- A byte that is written is one. -/
lemma memory_write (m : Machine M) (address : UInt16) (v : UInt8) :
    ∃ writes, writes.length ≤ 2 ∧ (m.write address v).memory = written m.memory writes :=
  ⟨[(address, v)], by simp, rfl⟩

/-- What is put at a place is at most one byte in memory. -/
lemma memory_put (m : Machine M) (operands : Operands) (place : Place) (v : UInt8) :
    ∃ writes, writes.length ≤ 2 ∧ (m.put operands place v).memory = written m.memory writes := by
  cases place with
  | reg register => exact ⟨[], by simp, rfl⟩
  | cell c => exact m.memory_write _ v

/-- What is put at a place and in a register is at most one byte in memory. -/
lemma memory_putCopy (m : Machine M) (operands : Operands) (place : Place)
    (copy : Option ByteReg) (v : UInt8) :
    ∃ writes, writes.length ≤ 2 ∧
      (m.putCopy operands place copy v).memory = written m.memory writes := by
  cases copy <;> exact m.memory_put operands place v

/-- A word that is written is two bytes. -/
lemma memory_writeWord (m : Machine M) (address w : UInt16) :
    ∃ writes, writes.length ≤ 2 ∧ (m.writeWord address w).memory = written m.memory writes :=
  ⟨[(address, lowByte w), (address + 1, highByte w)], by simp, rfl⟩

/-- A call writes the address behind it. -/
lemma memory_callIf (m : Machine M) (taken : Bool) (target next : UInt16) :
    ∃ writes, writes.length ≤ 2 ∧
      (m.callIf taken target next).machine.memory = written m.memory writes := by
  cases taken with
  | true => exact memory_writeWord _ (m.registers.sp - 2) next
  | false => exact ⟨[], by simp, rfl⟩

/-- **An operation writes at most two bytes to memory.** -/
theorem memory_execute (m : Machine M) (op : Operation) (operands : Operands) (next : UInt16) :
    ∃ writes, writes.length ≤ 2 ∧
      (m.execute op operands next).machine.memory = written m.memory writes := by
  cases op with
  | load target source => exact m.memory_put operands target _
  | storeWord source => exact m.memory_writeWord _ _
  | push source => exact memory_writeWord _ (m.registers.sp - 2) _
  | exchangeTop register => exact m.memory_writeWord _ _
  | increment place | decrement place => exact memory_put _ operands place _
  | shift shift place copy => exact memory_putCopy _ operands place copy _
  | resetBit n place copy | setBit n place copy => exact m.memory_putCopy operands place copy _
  | rotateDigits upward => exact m.memory_write _ _
  | call condition => exact m.memory_callIf _ _ next
  | restart address => exact m.memory_callIf _ _ next
  | ret condition =>
    simp only [execute, returnIf]
    split <;> exact ⟨[], by simp, rfl⟩
  | input target => cases target <;> exact ⟨[], by simp, rfl⟩
  | block kind downward repeats =>
    cases kind with
    | copy => exact m.memory_write _ _
    | input => exact m.memory_write _ _
    | compare | output => exact ⟨[], by simp, rfl⟩
  | _ => exact ⟨[], by simp, rfl⟩

/-- A byte at an address to which nothing is written stays. -/
lemma read_written {address : UInt16} {writes : List (UInt16 × UInt8)}
    (h : address ∉ writes.map Prod.fst) (memory : Memory) :
    (written memory writes).read address = memory.read address := by
  induction writes generalizing memory with
  | nil => rfl
  | cons w writes ih =>
    rw [List.map_cons, List.mem_cons, not_or] at h
    exact (ih h.2 _).trans ((memory.read_write _ _ _).trans (if_neg (Ne.symm h.1)))

end Machine

/-! ### What templates say -/

/-- Whether the flags are behind an instruction what they were in front of it. -/
def Template.keepsFlags (template : Template) : Bool :=
  match template.mnemonic with
  | .ld =>
    template.slots ≠ [.named "a", .named "i"] && template.slots ≠ [.named "a", .named "r"]
  | .pop => template.slots ≠ [.named "af"]
  | .ex => template.slots ≠ [.named "af", .named "af'"]
  | .inc | .dec =>
    ["bc", "de", "hl", "sp", "ix", "iy"].any fun pair => template.slots = [.named pair]
  | .in_ => template.slots = [.named "a", .port]
  | mnemonic =>
    mnemonic ∈ [Mnemonic.push, .exx, .res, .set, .jp, .jr, .djnz, .call, .ret, .reti, .retn, .rst,
      .out, .nop, .halt, .im, .di, .ei]

/-- Whether an instruction may change the stack pointer. -/
def Template.movesStack (template : Template) : Bool :=
  match template.mnemonic with
  | .ld | .inc | .dec => template.slots.head? = some (.named "sp")
  | mnemonic => mnemonic ∈ [Mnemonic.push, .pop, .call, .ret, .reti, .retn, .rst]

/-- Whether an instruction may change a part of the machine. -/
def Descriptor.mayChange (d : Descriptor) : Part → Bool
  | .shadow => d.template = ⟨.ex, [.named "af", .named "af'"]⟩ || d.template.mnemonic = .exx
  | .flags => !d.template.keepsFlags
  | .ix => d.space.prefixBytes.head? = some 0xDD
  | .iy => d.space.prefixBytes.head? = some 0xFD
  | .stackPointer => d.template.movesStack
  | .interruptRegister => d.template = ⟨.ld, [.named "i", .named "a"]⟩
  | .refreshRegister => d.template = ⟨.ld, [.named "r", .named "a"]⟩
  | .flipFlops => d.template.mnemonic ∈ [Mnemonic.di, .ei, .retn, .reti]
  | .interruptMode => d.template.mnemonic = .im
  | .ports => d.template.mnemonic ∈ [Mnemonic.out, .outi, .outd, .otir, .otdr]

/-- **An operation changes nothing that its template does not.** -/
theorem Operation.mayChange_of_mem_changes {d : Descriptor} (hd : d ∈ Descriptor.all)
    {op : Operation} (hop : ofOpcode? d.space d.byte = some op) {part : Part}
    (h : part ∈ op.changes) : d.mayChange part = true := by
  have key := Descriptor.of_mem_all
    (P := fun d => (ofOpcode? d.space d.byte).all fun op => op.changes.all d.mayChange)
    (by decide +kernel) hd
  rw [hop, Option.all_some] at key
  exact List.all_eq_true.1 key part h

namespace Machine

/-- **What a step leaves alone.**  A machine that is not halted in front of an instruction succeeds,
and every part that the instruction may not change is behind it what it is behind an instruction
that does nothing: as it was, and the refresh register is moved on by the bytes of the opcode, its
highest bit apart.  The alternate bank changes only by `ex af,af'` and `exx`; the interrupt register
only by `ld i,a`, and the refresh register otherwise only by `ld r,a`; the flip-flops only by `di`,
`ei`, `retn` and `reti`, and the mode only by `im`; an index register only behind its own prefix;
the stack pointer only by the instructions that load or count it, or work on the stack; the flags by
none that moves or exchanges bytes and words, transfers control or changes a bit, apart from those
that move the flags themselves; and the latches of the ports only by the instructions that write to
a port.  At most two cells of memory change.

**Proof sketch.** Each operation names the parts that it writes, and case by case it keeps the
others.  Opcode by opcode, what the operation names is allowed by the template. -/
theorem step_frame {m : Machine Memory} (hrunning : m.isHalted = false) {d : Descriptor}
    (hd : Descriptor.decode m.read m.registers.pc = .ok d) :
    ∃ after report, m.step = (after, .ok report) ∧
      (∀ part, d.mayChange part = false → part.Kept (m.passed d) after) ∧
      ∃ cells : List UInt16, cells.length ≤ 2 ∧
        ∀ address, address ∉ cells → after.read address = m.read address := by
  obtain ⟨op, hop, -, hstep⟩ := step_eq hrunning hd
  refine ⟨_, _, hstep, fun part hpart => ?_, ?_⟩
  · have hchanges : part ∉ op.changes := fun hmem => by
      simp [Operation.mayChange_of_mem_changes (Descriptor.of_decode hd).1 hop hmem] at hpart
    rw [← goTo_refreshed hrunning]
    exact kept_goTo (kept_execute _ _ _ hchanges) _ _ _ _
  · obtain ⟨writes, hlength, hmemory⟩ := (m.refreshed d.space).memory_execute op
      (op.fetch m.read (d.space.operandsAt m.registers.pc)).1
      (m.registers.pc + UInt16.ofNat d.size)
    refine ⟨writes.map Prod.fst, by simpa using hlength, fun address haddress => ?_⟩
    exact (congrArg (Memory.read · address) hmemory).trans (read_written haddress m.memory)

/-- A word that is pushed leaves the flags and the index registers alone. -/
theorem step_frame_push :
    ∃ (m after : Machine Memory) (report : StepReport),
      m.memory = Memory.blank.load 0 [0xC5] ∧ m.step = (after, .ok report) ∧
        after.registers.flags = m.registers.flags ∧ after.registers.ix = m.registers.ix := by
  obtain ⟨d, hd⟩ := exists_of_isOk
    (x := Descriptor.decode (start (Memory.blank.load 0 [0xC5]) {}).read 0) (by decide +kernel)
  have hkept : ((Descriptor.decode (start (Memory.blank.load 0 [0xC5]) {}).read 0).toOption.map
      fun d => (d.mayChange .flags, d.mayChange .ix)) = some (false, false) := by
    decide +kernel
  rw [hd] at hkept
  obtain ⟨hflags, hix⟩ := Prod.mk.inj (Option.some.inj hkept)
  obtain ⟨after, report, hstep, hframe, -⟩ :=
    step_frame (m := start (Memory.blank.load 0 [0xC5]) {}) rfl hd
  exact ⟨_, after, report, rfl, hstep, hframe .flags hflags, hframe .ix hix⟩

end Machine

end Z80
