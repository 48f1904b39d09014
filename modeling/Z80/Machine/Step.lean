import Z80.Machine.Execute

/-!
# Stepping a machine

A step looks up the descriptor of the instruction that the program counter points to, moves the
refresh register on and executes the operation of the opcode.  Bytes that form no instruction are a
fault; a step gives the machine back whether it succeeds or not.  A halted machine does not move.

## Main definitions

* `Z80.UnknownOpcode` — the fault of bytes that form no instruction.
* `Z80.Machine.step` — one instruction; `Z80.Machine.run` — up to a number of instructions.
-/

namespace Z80

/-- Bytes that form no instruction, and their address. -/
structure UnknownOpcode where
  address : UInt16
  bytes : List UInt8
  deriving DecidableEq, Repr

/-- The wording of the fault. -/
def UnknownOpcode.message (fault : UnknownOpcode) : String :=
  "unknown opcode " ++ " ".intercalate (fault.bytes.map Text.hexByte) ++ " at "
    ++ Text.hexWord fault.address ++ "h"

/-- Whether a machine goes on. -/
inductive Status where
  | running | halted
  deriving DecidableEq, Repr

/-- What a step did. -/
structure StepReport where
  /-- The address of the instruction. -/
  address : UInt16
  /-- The program counter behind it. -/
  next : UInt16
  status : Status
  events : List Event
  deriving DecidableEq, Repr

/-- What a run did. -/
structure RunReport where
  /-- The number of instructions. -/
  steps : Nat
  status : Status
  events : Array Event
  deriving DecidableEq, Repr

/-- How many bytes of an instruction move the refresh register on: the opcode, and one prefix. -/
def Space.refreshCount : Space → UInt8
  | .main => 1
  | _ => 2

/-- The program counter behind the instruction at an address, given the address behind it. -/
def Flow.target (flow : Flow) (address next : UInt16) : UInt16 :=
  match flow with
  | .next | .halt => next
  | .jump target => target
  | .again => address

namespace Machine

variable {M : Type} [Bus M]

/-- The machine with the program counter at an address, halted or not. -/
def goTo : Machine M → (address : UInt16) → (isHalted : Bool) → Machine M
  | ⟨registers, memory, board, _⟩, address, isHalted =>
    ⟨{ registers with pc := address }, memory, board, isHalted⟩

/-- The machine with the program counter at an address; a halt is over. -/
def jumpTo (m : Machine M) (address : UInt16) : Machine M :=
  m.goTo address false

/-- The machine behind an outcome, and what the step did. -/
def finish (outcome : Outcome M) (address next : UInt16) : Machine M × StepReport :=
  let target := outcome.flow.target address next
  let isHalted : Bool := outcome.flow = .halt
  (outcome.machine.goTo target isHalted,
    ⟨address, target, if isHalted then .halted else .running, outcome.events⟩)

/-- The machine in front of the execution of an instruction: only the refresh register has moved
on. -/
def refreshed (m : Machine M) (space : Space) : Machine M :=
  m.mapRegisters (·.refresh space.refreshCount)

/-- The machine behind the operation of a descriptor at an address, and what the step did.  An
opcode without an operation is a fault. -/
def perform (m : Machine M) (d : Descriptor) (address : UInt16) :
    Machine M × Except UnknownOpcode StepReport :=
  match Operation.ofOpcode? d.space d.byte with
  | none =>
    let bytes := d.space.bytesAt m.read address
    (m, .error ⟨address, bytes⟩)
  | some op =>
    let (operands, behind) := op.fetch m.read (d.space.operandsAt address)
    let outcome := m.execute op operands (d.space.behind behind)
    let (m, report) := finish outcome address (address + UInt16.ofNat d.size)
    (m, .ok report)

/-- The machine behind the instruction at the program counter, and what the step did.  A machine
that is halted, or whose bytes are those of no descriptor, stays as it is. -/
def step (m : Machine M) : Machine M × Except UnknownOpcode StepReport :=
  let address := m.registers.pc
  if m.isHalted then (m, .ok ⟨address, address, .halted, []⟩)
  else
    match Descriptor.decode m.read address with
    | .error bytes => (m, .error ⟨address, bytes⟩)
    | .ok d => (m.refreshed d.space).perform d address

/-- The machine behind up to `budget` more instructions, added to what the run did so far. -/
def runFrom (m : Machine M) (done : RunReport) :
    (budget : Nat) → Machine M × Except UnknownOpcode RunReport
  | 0 => (m, .ok done)
  | budget + 1 =>
    let count := if m.isHalted then 0 else 1
    match m.step with
    | (m, .error fault) => (m, .error fault)
    | (m, .ok report) =>
      let done := ⟨done.steps + count, report.status, done.events ++ report.events⟩
      match report.status with
      | .halted => (m, .ok done)
      | .running => m.runFrom done budget

/-- The machine behind at most `budget` instructions, up to a halt or a fault. -/
def run (m : Machine M) (budget : Nat) : Machine M × Except UnknownOpcode RunReport :=
  m.runFrom ⟨0, .running, #[]⟩ budget

end Machine

end Z80
