import Z80.Machine.Interrupt
import Z80.Proofs.Machine.ControlFlow

/-!
# Refused transitions change nothing

A step moves the refresh register on before it looks for the operation of the opcode, so that a
descriptor without an operation would leave its trace in the machine.  There is none: a step fails
only where the bytes at the program counter form no instruction, and nothing has changed then.  An
interrupt that is not accepted changes nothing either.

## Main definitions

* `Z80.isRestart` — whether a byte is the opcode of a restart.

## Main results

* `Z80.Machine.step_of_decode_error`, `Z80.Machine.exists_step_of_decode_ok` — a step over bytes
  that do and do not form an instruction.
* `Z80.Machine.refusal_changes_nothing` — failed steps and refused interrupts leave the machine as
  it was.
-/

namespace Z80

/-- Whether a byte is the opcode of a restart. -/
def isRestart (b : UInt8) : Bool :=
  (Descriptor.lookup? .main b).any fun d => d.template.mnemonic = .rst

/-- The opcodes of restarts are those in whose five outer bits nothing is clear. -/
lemma isRestart_iff (b : UInt8) : isRestart b = true ↔ b &&& 0xC7 = 0xC7 := by
  have key : (isRestart b == decide (b &&& 0xC7 = 0xC7)) = true :=
    List.all_eq_true.1
      (by decide +kernel : (allBytes.all fun b => isRestart b == decide (b &&& 0xC7 = 0xC7)) = true)
      b (mem_allBytes b)
  rw [eq_of_beq key, decide_eq_true_eq]

namespace Machine

variable {M : Type} [Bus M] {m : Machine M}

/-! ### Steps -/

/-- **A step over bytes that form no instruction fails with them**, and the machine stays as it
is. -/
theorem step_of_decode_error (hrunning : m.isHalted = false) {bytes : List UInt8}
    (hd : Descriptor.decode m.read m.registers.pc = .error bytes) :
    m.step = (m, .error ⟨m.registers.pc, bytes⟩) := by
  simp only [step, hrunning, Bool.false_eq_true, ↓reduceIte, hd]

/-- **A step over an instruction succeeds.** -/
theorem exists_step_of_decode_ok (hrunning : m.isHalted = false) {d : Descriptor}
    (hd : Descriptor.decode m.read m.registers.pc = .ok d) :
    ∃ after report, m.step = (after, .ok report) := by
  obtain ⟨op, -, -, hstep⟩ := step_eq hrunning hd
  exact ⟨_, _, hstep⟩

/-- A step fails with the bytes that form no instruction, and with their address. -/
lemma step_eq_error_iff (hrunning : m.isHalted = false) {fault : UnknownOpcode} :
    m.step.2 = .error fault ↔
      fault.address = m.registers.pc ∧
        Descriptor.decode m.read m.registers.pc = .error fault.bytes := by
  cases hd : Descriptor.decode m.read m.registers.pc with
  | error bytes =>
    obtain ⟨address, bytes'⟩ := fault
    rw [step_of_decode_error hrunning hd]
    simp only [Except.error.injEq, UnknownOpcode.mk.injEq]
    exact ⟨fun ⟨haddress, hbytes⟩ => ⟨haddress.symm, hbytes⟩,
      fun ⟨haddress, hbytes⟩ => ⟨haddress.symm, hbytes⟩⟩
  | ok d =>
    obtain ⟨after, report, hstep⟩ := exists_step_of_decode_ok hrunning hd
    simp [hstep]

/-- A step that fails leaves the machine as it was. -/
lemma step_fst_of_error {fault : UnknownOpcode} (h : m.step.2 = .error fault) : m.step.1 = m := by
  cases hrunning : m.isHalted with
  | true => simp [step, hrunning] at h
  | false =>
    rw [step_of_decode_error hrunning ((step_eq_error_iff hrunning).1 h).2]

/-! ### Interrupts -/

/-- A maskable interrupt has no target in mode 0 if the byte from the device is no restart. -/
lemma interruptTarget_eq_error_iff {data : UInt8} {fault : UnknownOpcode} :
    m.interruptTarget data = .error fault ↔
      m.registers.mode = .mode0 ∧ isRestart data = false ∧
        fault = ⟨m.registers.pc, [data]⟩ := by
  rw [← Bool.not_eq_true, isRestart_iff]
  unfold interruptTarget
  cases hmode : m.registers.mode with
  | mode0 =>
    by_cases hdata : data &&& 0xC7 = 0xC7
    · simp [hdata]
    · simp [hdata, eq_comm]
  | mode1 | mode2 => simp

/-- What becomes of a maskable interrupt: it is refused, fails, or is accepted. -/
lemma interrupt_cases (m : Machine M) (data : UInt8) :
    (m.registers.iff1 = false ∧ m.interrupt data = (m, .ok false)) ∨
    (∃ fault, m.registers.iff1 = true ∧ m.interruptTarget data = .error fault ∧
      m.interrupt data = (m, .error fault)) ∨
    (∃ target, m.registers.iff1 = true ∧ m.interruptTarget data = .ok target ∧
      m.interrupt data = (m.accept target false false, .ok true)) := by
  unfold interrupt
  cases hiff : m.registers.iff1 with
  | false => exact .inl ⟨rfl, rfl⟩
  | true =>
    cases htarget : m.interruptTarget data with
    | error fault => exact .inr (.inl ⟨fault, rfl, rfl, rfl⟩)
    | ok target => exact .inr (.inr ⟨target, rfl, rfl, rfl⟩)

/-- **Failed and refused transitions change nothing.**  A step of a machine that is not halted
fails exactly if the bytes at the program counter form no instruction, with that address and those
bytes, and then the whole machine is as it was; every descriptor of the catalog has an operation
that succeeds in every state.  A maskable interrupt is refused exactly while the first flip-flop is
clear, fails exactly in mode 0 for a byte that is no restart, and changes the machine only if it is
accepted. -/
theorem refusal_changes_nothing (m : Machine M) :
    (m.isHalted = false → ∀ fault,
      (m.step.2 = .error fault ↔
        fault.address = m.registers.pc ∧
          Descriptor.decode m.read m.registers.pc = .error fault.bytes) ∧
      (m.step.2 = .error fault → m.step.1 = m)) ∧
    (∀ d ∈ Descriptor.all, ∀ address, ∃ after report,
      m.perform d address = (after, .ok report)) ∧
    ∀ data,
      ((m.interrupt data).2 = .ok false ↔ m.registers.iff1 = false) ∧
      (∀ fault, (m.interrupt data).2 = .error fault ↔
        m.registers.iff1 = true ∧ m.registers.mode = .mode0 ∧ isRestart data = false ∧
          fault = ⟨m.registers.pc, [data]⟩) ∧
      ((m.interrupt data).2 ≠ .ok true → (m.interrupt data).1 = m) := by
  refine ⟨fun hrunning fault => ⟨step_eq_error_iff hrunning, step_fst_of_error⟩,
    fun d hd address => ?_, fun data => ?_⟩
  · obtain ⟨op, -, -, hperform⟩ := perform_eq hd m address
    exact ⟨_, _, hperform⟩
  · simp only [← interruptTarget_eq_error_iff]
    rcases m.interrupt_cases data with ⟨hiff, h⟩ | ⟨fault, hiff, htarget, h⟩ |
      ⟨target, hiff, htarget, h⟩
    · simp [h, hiff]
    · simp [h, hiff, htarget]
    · simp [h, hiff, htarget]

/-- A machine in front of two bytes that form no instruction fails and stays as it is. -/
theorem refusal_changes_nothing_misc :
    ∃ (m : Machine Memory) (fault : UnknownOpcode),
      m.memory = Memory.blank.load 0 [0xED, 0x00] ∧ fault = ⟨0, [0xED, 0x00]⟩ ∧
        m.step = (m, .error fault) := by
  have hd : Descriptor.decode (start (Memory.blank.load 0 [0xED, 0x00]) {}).read 0 =
      .error [0xED, 0x00] := by
    decide +kernel
  obtain ⟨hiff, hsame⟩ := (refusal_changes_nothing
    (start (Memory.blank.load 0 [0xED, 0x00]) {})).1 rfl ⟨0, [0xED, 0x00]⟩
  have hfault := hiff.2 ⟨rfl, hd⟩
  exact ⟨_, _, rfl, rfl, Prod.ext (hsame hfault) hfault⟩

end Machine

end Z80
