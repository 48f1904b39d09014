import Z80.Machine.Step

/-!
# Interrupts and resets

Between two instructions a device may interrupt the processor.  A maskable interrupt is refused
while the first flip-flop is clear; otherwise the interrupt mode says where control goes.  The
other interrupt is never refused.

## Main definitions

* `Z80.Machine.interruptTarget` — where a maskable interrupt leads.
* `Z80.Machine.interrupt`, `Z80.Machine.nonMaskableInterrupt` — the two interrupts.
* `Z80.Machine.reset`, `resetMemory`, `resetPorts` — resets.
-/

namespace Z80.Machine

variable {M : Type} [Bus M]

/-- Where a maskable interrupt leads, given the byte from the device.  In mode 0 the byte must be
the opcode of a restart. -/
def interruptTarget (m : Machine M) (data : UInt8) : Except UnknownOpcode UInt16 :=
  match m.registers.mode with
  | .mode0 =>
    if data &&& 0xC7 = 0xC7 then .ok (data &&& 0x38).toUInt16
    else .error ⟨m.registers.pc, [data]⟩
  | .mode1 => .ok 0x0038
  | .mode2 => .ok (m.readWord (wordOf data m.registers.i))

/-- The machine with control passed to the target of an interrupt, and the flip-flops changed. -/
def accept (m : Machine M) (target : UInt16) (iff1 iff2 : Bool) : Machine M :=
  let pc := m.registers.pc
  let m := m.mapRegisters fun r => { r.refresh 1 with iff1, iff2 }
  (m.pushWord pc).jumpTo target

/-- The machine behind a maskable interrupt, and whether it was accepted. -/
def interrupt (m : Machine M) (data : UInt8) : Machine M × Except UnknownOpcode Bool :=
  if m.registers.iff1 then
    match m.interruptTarget data with
    | .ok target => (m.accept target false false, .ok true)
    | .error fault => (m, .error fault)
  else (m, .ok false)

/-- The machine behind an interrupt that cannot be refused.  The second flip-flop keeps whether
maskable interrupts were accepted. -/
def nonMaskableInterrupt (m : Machine M) : Machine M :=
  let iff2 := m.registers.iff1
  m.accept 0x0066 false iff2

/-- The machine with registers as at power-on. -/
def reset : Machine M → Machine M
  | ⟨_, memory, board, _⟩ => ⟨.zero, memory, board, false⟩

/-- The machine with zero written to all of memory. -/
def resetMemory : Machine M → Machine M
  | ⟨registers, memory, board, isHalted⟩ => ⟨registers, Bus.clear memory, board, isHalted⟩

/-- The machine with the board as at power-on. -/
def resetPorts : Machine M → Machine M
  | ⟨registers, memory, board, isHalted⟩ => ⟨registers, memory, board.reset, isHalted⟩

end Z80.Machine
