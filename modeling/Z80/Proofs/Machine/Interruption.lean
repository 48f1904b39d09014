import Z80.Proofs.Machine.Operand
import Z80.Proofs.Machine.Refusal
import Z80.Proofs.Machine.Stack

/-!
# Interrupted programs

An interrupt that is accepted puts the program counter on the stack and ends a halt.  Behind it any
code may run: a return from the interrupt that finds the stack as it was left goes on where the
program was interrupted, with the stack pointer as it was.

## Main definitions

* `Z80.Machine.Accepts` — a machine and the one right behind an interrupt that it accepts.
* `Z80.Machine.IsAtReturn` — whether a machine is in front of a return from an interrupt.
* `Z80.Machine.returned` — the machine behind such a return.

## Main results

* `Z80.Machine.Accepts.registers_eq`, `Z80.Machine.Accepts.read_eq` — what an interrupt changes.
* `Z80.Machine.step_return` — what a return from an interrupt changes.
* `Z80.Machine.step_to_halt` — a machine that comes to a halt stands behind the instruction.
* `Z80.Machine.interrupted_resumes` — an interrupted program goes on where it was.
-/

namespace Z80

/-! ### Halts -/

/-- Only a halt passes control on to a halt. -/
lemma Transfer.Yields.eq_halt {M : Type} [Bus M] {transfer : Transfer} {m : Machine M}
    {operands : Operands} {next : UInt16} {outcome : Outcome M}
    (h : transfer.Yields m operands next outcome) (hflow : outcome.flow = .halt) :
    transfer = .halt := by
  have hjump (m : Machine M) (taken : Bool) (target : UInt16) :
      (m.jumpIf taken target).flow ≠ .halt := by
    cases taken <;> simp [Machine.jumpIf]
  have hcall (m : Machine M) (taken : Bool) (target : UInt16) :
      (m.callIf taken target next).flow ≠ .halt := by
    cases taken <;> simp [Machine.callIf, Machine.passOn]
  have hret (m : Machine M) (taken : Bool) : (m.returnIf taken).flow ≠ .halt := by
    cases taken <;> simp [Machine.returnIf, Machine.passOn]
  cases transfer with
  | halt => rfl
  | onward => exact absurd (h.symm.trans hflow) (by decide)
  | again => rcases h with h | h <;> simp [hflow] at h
  | jump | jumpRelative | jumpTo => exact absurd (h ▸ hflow) (hjump _ _ _)
  | loop => exact absurd (h ▸ hflow) (hjump _ _ _)
  | call | restart => exact absurd (h ▸ hflow) (hcall _ _ _)
  | ret condition =>
    obtain ⟨m', -, -, rfl⟩ := h
    exact absurd hflow (hret _ _)

/-- The operation that halts has one opcode, of one byte. -/
lemma Operation.size_of_halt {d : Descriptor} (hd : d ∈ Descriptor.all) {op : Operation}
    (hop : ofOpcode? d.space d.byte = some op) (htransfer : op.transfer = .halt) :
    d.space = .main ∧ d.byte = 0x76 ∧ d.size = 1 := by
  have key := Descriptor.of_mem_all
    (P := fun d => (ofOpcode? d.space d.byte).all fun op => op.transfer ≠ .halt ||
      (d.space = .main && d.byte = 0x76 && d.size = 1)) (by decide +kernel) hd
  simpa [hop, htransfer, and_assoc] using key

namespace Machine

variable {M : Type} [Bus M]

/-- **A machine that comes to a halt stands behind the instruction.** -/
theorem step_to_halt {before m : Machine M} (hrunning : before.isHalted = false)
    (hstep : before.step.1 = m) (hhalted : m.isHalted = true) :
    before.read before.registers.pc = 0x76 ∧ m.registers.pc = before.registers.pc + 1 := by
  cases hd : Descriptor.decode before.read before.registers.pc with
  | error bytes =>
    rw [step_of_decode_error hrunning hd] at hstep
    obtain rfl : before = m := hstep
    simp [hrunning] at hhalted
  | ok d =>
    obtain ⟨op, hop, -, heq⟩ := step_eq hrunning hd
    rw [heq] at hstep
    obtain rfl := hstep
    have hflow := of_decide_eq_true hhalted
    have htransfer := (execute_transfer _ op _ _).eq_halt hflow
    obtain ⟨hall, -, hbyte⟩ := Descriptor.of_decode hd
    obtain ⟨hspace, hopcode, hsize⟩ := Operation.size_of_halt hall hop htransfer
    refine ⟨?_, ?_⟩
    · rw [hspace, hopcode] at hbyte
      exact (congrArg before.read (UInt16.add_zero _)).symm.trans hbyte
    · change Flow.target _ _ _ = _
      rw [hflow, hsize]
      rfl

/-! ### Acceptance -/

/-- A machine and the one right behind an interrupt that it accepts. -/
inductive Accepts (m : Machine M) : Machine M → Prop
  | maskable {data : UInt8} {after : Machine M} (h : m.interrupt data = (after, .ok true)) :
      m.Accepts after
  | nonMaskable : m.Accepts m.nonMaskableInterrupt

/-- Every interrupt is accepted in the same way. -/
lemma Accepts.exists_accept {m after : Machine M} (h : m.Accepts after) :
    ∃ target iff2, after = m.accept target false iff2 := by
  cases h with
  | nonMaskable => exact ⟨0x0066, m.registers.iff1, rfl⟩
  | @maskable data after h =>
    rcases m.interrupt_cases data with ⟨-, hcase⟩ | ⟨fault, -, -, hcase⟩ | ⟨target, -, -, hcase⟩
    · simp [hcase] at h
    · simp [hcase] at h
    · rw [hcase, Prod.mk.injEq] at h
      exact ⟨target, false, h.1.symm⟩

/-- The registers behind an interrupt. -/
lemma registers_accept (m : Machine M) (target : UInt16) (iff1 iff2 : Bool) :
    (m.accept target iff1 iff2).registers =
      { m.registers with
        pc := target, sp := m.registers.sp - 2, r := refreshBy m.registers.r 1, iff1, iff2 } := by
  have hr : m.registers.refresh 1 = { m.registers with r := refreshBy m.registers.r 1 } :=
    m.registers.refresh_eq (.inl rfl)
  change { m.registers.refresh 1 with pc := target, sp := m.registers.sp - 2, iff1, iff2 } = _
  rw [hr]

/-- An interrupt changes the program counter, the stack pointer, the refresh register and the
flip-flops, and no other register. -/
lemma Accepts.registers_eq {m after : Machine M} (h : m.Accepts after) :
    after.registers =
      { m.registers with
        pc := after.registers.pc
        sp := m.registers.sp - 2
        r := refreshBy m.registers.r 1
        iff1 := false
        iff2 := after.registers.iff2 } := by
  obtain ⟨target, iff2, rfl⟩ := h.exists_accept
  rw [registers_accept]

/-- An interrupt ends a halt and leaves the board alone. -/
lemma Accepts.isHalted_eq {m after : Machine M} (h : m.Accepts after) :
    after.isHalted = false ∧ after.board = m.board := by
  obtain ⟨target, iff2, rfl⟩ := h.exists_accept
  exact ⟨rfl, rfl⟩

/-- An interrupt puts the program counter on the stack, and changes no other byte. -/
lemma Accepts.read_eq {m after : Machine Memory} (h : m.Accepts after) (address : UInt16) :
    after.read address =
      if address = m.registers.sp - 2 then lowByte m.registers.pc
      else if address = m.registers.sp - 1 then highByte m.registers.pc
      else m.read address := by
  obtain ⟨target, iff2, rfl⟩ := h.exists_accept
  exact (m.mapRegisters fun r => { r.refresh 1 with iff1 := false, iff2 }).read_pushWord
    m.registers.pc address

/-! ### Returns -/

/-- The bytes at the program counter are those of a return from an interrupt. -/
def IsAtReturn (m : Machine M) : Prop :=
  ∃ d, Descriptor.decode m.read m.registers.pc = .ok d ∧
    (d.template.mnemonic = .retn ∨ d.template.mnemonic = .reti)

/-- The machine behind a return from an interrupt to an address, with a stack pointer. -/
def returned (m : Machine M) (target sp : UInt16) : Machine M where
  registers := { m.registers with
    pc := target
    sp := sp
    r := refreshBy m.registers.r 2
    iff1 := m.registers.iff2 }
  memory := m.memory
  board := m.board
  isHalted := false

/-- Both returns from interrupts have the same operation. -/
lemma ofOpcode?_of_return {d : Descriptor} (hd : d ∈ Descriptor.all)
    (h : d.template.mnemonic = .retn ∨ d.template.mnemonic = .reti) :
    d.space = .misc ∧ Operation.ofOpcode? d.space d.byte = some .returnFromInterrupt := by
  have key := Descriptor.of_mem_all
    (P := fun d => !(d.template.mnemonic = .retn || d.template.mnemonic = .reti) ||
      (d.space = .misc && Operation.ofOpcode? d.space d.byte = some .returnFromInterrupt))
    (by decide +kernel) hd
  rcases h with h | h <;> simpa [h] using key

/-- **A return from an interrupt** goes to the address on top of the stack, and takes the first
flip-flop from the second. -/
theorem step_return {m : Machine M} (hrunning : m.isHalted = false) (h : m.IsAtReturn) :
    let target := m.readWord m.registers.sp
    m.step = (m.returned target (m.registers.sp + 2),
      .ok ⟨m.registers.pc, target, .running, []⟩) := by
  obtain ⟨d, hd, hmnemonic⟩ := h
  obtain ⟨op, hop, -, hstep⟩ := step_eq hrunning hd
  obtain ⟨hspace, hreturn⟩ := ofOpcode?_of_return (Descriptor.of_decode hd).1 hmnemonic
  obtain rfl := Option.some.inj (hreturn.symm.trans hop)
  have hr : m.registers.refresh 2 = { m.registers with r := refreshBy m.registers.r 2 } :=
    m.registers.refresh_eq (.inr rfl)
  rw [hstep, hspace]
  simp only [refreshed, Space.refreshCount, mapRegisters, hr]
  rfl

/-! ### Interrupts and their returns -/

/-- The address that an interrupt has put on the stack. -/
lemma Accepts.readWord_eq {m after later : Machine Memory} (h : m.Accepts after)
    (hstack : ∀ address ∈ bytesBelow m.registers.sp 1, later.read address = after.read address) :
    later.readWord (m.registers.sp - 2) = m.registers.pc := by
  have hnext : m.registers.sp - 2 + 1 = m.registers.sp - 1 := by grind
  have hdiffer : m.registers.sp - 1 ≠ m.registers.sp - 2 := by grind
  have hlow : later.read (m.registers.sp - 2) = lowByte m.registers.pc := by
    rw [hstack _ (mem_bytesBelow_one.2 (.inl rfl)), h.read_eq, if_pos rfl]
  have hhigh : later.read (m.registers.sp - 1) = highByte m.registers.pc := by
    rw [hstack _ (mem_bytesBelow_one.2 (.inr rfl)), h.read_eq, if_neg hdiffer, if_pos rfl]
  change wordOf (later.read (m.registers.sp - 2)) (later.read (m.registers.sp - 2 + 1)) = _
  rw [hnext, hlow, hhigh, wordOf_bytes]

/-- **Interrupted programs resume exactly.**  Let `after` be the machine right behind an interrupt,
maskable or not, that `m` has accepted.  It is not halted, and it differs from `m` in nothing but
the program counter, the stack pointer, the refresh register, the flip-flops and the two bytes below
the old stack pointer.  If `later`, whatever has happened in between, is in front of a return from
an interrupt with the stack pointer and these two bytes as they were right behind the interrupt,
then the return goes to where `m` was and restores its stack pointer, and the first flip-flop
becomes what the second one is; that is what it was in `m`, if the interrupt was not maskable and
the second flip-flop has not been changed since.  Where a machine is halted, the address to which it
returns is the one behind the halt.  And any number of words that fit into memory nest: they are
popped in the opposite order, with the stack pointer and all other registers as they were, and no
byte is changed but those below the stack pointer that they need.

**Proof sketch.** An interrupt pushes the program counter, so it is what a return finds at the
stack pointer.  Of words that are nested, those behind the first lie below it. -/
theorem interrupted_resumes {m after : Machine Memory} (h : m.Accepts after) :
    (after.isHalted = false ∧ after.board = m.board ∧
      after.registers =
        { m.registers with
          pc := after.registers.pc
          sp := m.registers.sp - 2
          r := refreshBy m.registers.r 1
          iff1 := false
          iff2 := after.registers.iff2 } ∧
      ∀ address ∉ bytesBelow m.registers.sp 1, after.read address = m.read address) ∧
    (∀ later : Machine Memory, later.isHalted = false → later.IsAtReturn →
      later.registers.sp = after.registers.sp →
      (∀ address ∈ bytesBelow m.registers.sp 1, later.read address = after.read address) →
        later.step = (later.returned m.registers.pc m.registers.sp,
          .ok ⟨later.registers.pc, m.registers.pc, .running, []⟩) ∧
        (after = m.nonMaskableInterrupt → later.registers.iff2 = after.registers.iff2 →
          later.step.1.registers.iff1 = m.registers.iff1)) ∧
    (∀ before : Machine Memory, before.isHalted = false → before.step.1 = m →
      m.isHalted = true →
        before.read before.registers.pc = 0x76 ∧ m.registers.pc = before.registers.pc + 1) ∧
    ∀ (top : Machine Memory) (words : List UInt16), words.length ≤ 32768 →
      ∃ bottom, (top.pushWords words).popWords words.length = (words.reverse, bottom) ∧
        bottom = top.withMemory bottom.memory ∧
        ∀ address ∉ bytesBelow top.registers.sp words.length,
          bottom.read address = top.read address := by
  obtain ⟨hrunning, hboard⟩ := h.isHalted_eq
  refine ⟨⟨hrunning, hboard, h.registers_eq, fun address haddress => ?_⟩,
    fun later hlater hreturn hsp hstack => ?_, fun before => step_to_halt,
    fun top words hwords => ?_⟩
  · rw [mem_bytesBelow_one, not_or] at haddress
    rw [h.read_eq, if_neg haddress.1, if_neg haddress.2]
  · have hbelow : after.registers.sp = m.registers.sp - 2 := by rw [h.registers_eq]
    have hrestored : m.registers.sp - 2 + 2 = m.registers.sp := UInt16.sub_add_cancel _ _
    have hstep := step_return hlater hreturn
    rw [hsp, hbelow, h.readWord_eq hstack, hrestored] at hstep
    refine ⟨hstep, fun hnmi hiff => ?_⟩
    rw [hstep]
    subst hnmi
    exact hiff
  · exact ⟨_, top.popWords_pushWords words hwords, rfl, fun address => top.read_pushWords words⟩

/-- A halted machine is interrupted, pushes and pops a word, and returns behind the halt. -/
theorem interrupted_resumes_halt :
    ∃ m later : Machine Memory,
      m.isHalted = true ∧ m.registers.pc = 0x0001 ∧ m.registers.sp = 0x0020 ∧
        m.registers.iff1 = true ∧ later = m.nonMaskableInterrupt.step.1.step.1 ∧
        later.registers.pc = 0x0068 ∧ later.step.1 = later.returned 0x0001 0x0020 ∧
        later.step.1.registers.iff1 = true := by
  -- `halt`; behind the interrupt `push bc`, `pop bc`, `retn`
  obtain ⟨m, hhalted, hpc, hsp, hiff1, hrunning, hlater, hreturn, hsame, hstack, hiff2⟩ :
      ∃ m : Machine Memory,
        let after := m.nonMaskableInterrupt
        let later := after.step.1.step.1
        m.isHalted = true ∧ m.registers.pc = 0x0001 ∧ m.registers.sp = 0x0020 ∧
          m.registers.iff1 = true ∧ later.isHalted = false ∧ later.registers.pc = 0x0068 ∧
          (Descriptor.decode later.read later.registers.pc).toOption.map (·.template.mnemonic) =
            some .retn ∧
          later.registers.sp = after.registers.sp ∧
          (later.read (m.registers.sp - 2) = after.read (m.registers.sp - 2) ∧
            later.read (m.registers.sp - 1) = after.read (m.registers.sp - 1)) ∧
          later.registers.iff2 = after.registers.iff2 := by
    exact ⟨((start ((Memory.blank.load 0 [0x76]).load 0x66 [0xC5, 0xC1, 0xED, 0x45])
      {}).mapRegisters ({ · with sp := 0x0020, iff1 := true })).step.1, by decide +kernel⟩
  obtain ⟨d, hoption, hmnemonic⟩ := Option.map_eq_some_iff.1 hreturn
  have hd := ((toOption_eq_iff (y := .ok d)).1 hoption d).2 rfl
  obtain ⟨-, hresumes, -⟩ := interrupted_resumes (m := m) .nonMaskable
  obtain ⟨hstep, hiff⟩ := hresumes _ hrunning ⟨d, hd, .inl hmnemonic⟩ hsame fun address h => by
    rcases mem_bytesBelow_one.1 h with rfl | rfl
    exacts [hstack.1, hstack.2]
  rw [hpc, hsp] at hstep
  exact ⟨m, _, hhalted, hpc, hsp, hiff1, rfl, hlater, congrArg Prod.fst hstep,
    (hiff rfl hiff2).trans hiff1⟩

end Machine

end Z80
