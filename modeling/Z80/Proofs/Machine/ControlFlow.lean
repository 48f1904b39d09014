import Z80.Machine.Step
import Z80.Proofs.Disassembly.Buffer
import Z80.Proofs.Machine.Transfer
import Z80.Proofs.Result

/-!
# Execution follows the catalog

A step of the machine goes where the catalog says that the instruction goes: behind it, or where
its category, its operands and the condition in its template lead.  Calls leave the address behind
the instruction on the stack, returns take one from it, and transfers that do not take place leave
the stack alone.

## Main definitions

* `Z80.Machine.KeepsStack`, `Z80.Machine.Pushed`, `Z80.Machine.Popped` — what becomes of the stack.
* `Z80.Flags.asked?`, `Z80.Template.takes?` — what a condition asks for, and whether the one in a
  template is met.
* `Z80.Instruction.Governs` — whether a step goes where an instruction leads.

## Main results

* `Z80.Machine.execute_transfer` — an operation passes control on in the way that it is said to.
* `Z80.Machine.perform_eq` — the operation of a descriptor is performed in every state.
* `Z80.Machine.step_eq` — a step performs the operation of the opcode that decodes.
* `Z80.Machine.step_follows_catalog` — a step goes where the instruction leads.
-/

namespace Z80

/-! ### Operations -/

/-- Whether an outcome is that of a machine which passes control on in some way. -/
def Transfer.Yields {M : Type} [Bus M] (transfer : Transfer) (m : Machine M) (operands : Operands)
    (next : UInt16) (outcome : Outcome M) : Prop :=
  match transfer with
  | onward => outcome.flow = .next
  | again => outcome.flow = .next ∨ outcome.flow = .again
  | halt => outcome.flow = .halt ∧ outcome.machine = m
  | jump condition =>
    outcome = m.jumpIf (conditionHolds m.registers.flags condition) operands.word
  | jumpRelative condition =>
    outcome = m.jumpIf (conditionHolds m.registers.flags condition)
      (next + signExtend operands.byte)
  | jumpTo register => outcome = m.jumpIf true (m.registers.word register)
  | loop => outcome = m.loop (next + signExtend operands.byte)
  | call condition =>
    outcome = m.callIf (conditionHolds m.registers.flags condition) operands.word next
  | ret condition =>
    ∃ m' : Machine M, m'.registers.sp = m.registers.sp ∧ m'.memory = m.memory ∧
      outcome = m'.returnIf (conditionHolds m.registers.flags condition)
  | restart address => outcome = m.callIf true address next

/-- Whether operand bytes are those at an address, as far as a transfer of control asks for them. -/
def Transfer.Fetches (transfer : Transfer) (read : UInt16 → UInt8) (address : UInt16)
    (operands : Operands) : Prop :=
  match transfer with
  | jump _ | call _ => operands.word = wordOf (read address) (read (address + 1))
  | jumpRelative _ | loop => operands.byte = read address
  | onward | again | halt | jumpTo _ | ret _ | restart _ => True

/-- **The operand bytes of a transfer of control are fetched from their address.** -/
theorem Operation.fetch_transfer (op : Operation) (read : UInt16 → UInt8) (address : UInt16) :
    op.transfer.Fetches read address (op.fetch read address).1 := by
  cases op with
  | jump | call | jumpRelative | loop => rfl
  | block kind downward repeats => cases repeats <;> trivial
  | _ => trivial

namespace Machine

variable {M : Type} [Bus M]

/-- **An operation passes control on in the way that it is said to.** -/
theorem execute_transfer (m : Machine M) (op : Operation) (operands : Operands) (next : UInt16) :
    op.transfer.Yields m operands next (m.execute op operands next) := by
  cases op with
  | halt => exact ⟨rfl, rfl⟩
  | jump | jumpTo | jumpRelative | loop | call | restart => rfl
  | ret condition => exact ⟨m, rfl, rfl, rfl⟩
  | returnFromInterrupt =>
    exact ⟨m.mapRegisters fun r => { r with iff1 := r.iff2 }, rfl, rfl, rfl⟩
  | block kind downward repeats =>
    cases repeats with
    | false => simp [Operation.transfer, Transfer.Yields, execute, block]
    | true =>
      simp only [Operation.transfer, Transfer.Yields, execute, block, Bool.true_and]
      cases (m.blockStep kind downward).2.1 <;> simp
  | input target => cases target <;> rfl
  | _ => rfl

/-- **The operation of a descriptor is performed in every state**, given its operand bytes and the
address behind the instruction. -/
theorem perform_eq {d : Descriptor} (hd : d ∈ Descriptor.all) (m : Machine M) (address : UInt16) :
    ∃ op : Operation, Operation.ofOpcode? d.space d.byte = some op ∧ op.Carries d ∧
      m.perform d address =
        let operands := (op.fetch m.read (d.space.operandsAt address)).1
        let next := address + UInt16.ofNat d.size
        let done := finish (m.execute op operands next) address next
        (done.1, .ok done.2) := by
  obtain ⟨op, hop, hcarries⟩ := Operation.carries_of_lookup? (Descriptor.mem_all_iff.1 hd)
  refine ⟨op, hop, hcarries, ?_⟩
  simp only [perform, hop, hcarries.behind_eq m.read address]

/-- **A step performs the operation of the opcode that decodes**, given its operand bytes and the
address behind the instruction. -/
theorem step_eq {m : Machine M} (hrunning : m.isHalted = false) {d : Descriptor}
    (hd : Descriptor.decode m.read m.registers.pc = .ok d) :
    ∃ op : Operation, Operation.ofOpcode? d.space d.byte = some op ∧ op.Carries d ∧
      m.step =
        let operands := (op.fetch m.read (d.space.operandsAt m.registers.pc)).1
        let next := m.registers.pc + UInt16.ofNat d.size
        let done := finish ((m.refreshed d.space).execute op operands next) m.registers.pc next
        (done.1, .ok done.2) := by
  obtain ⟨op, hop, hcarries, hperform⟩ :=
    perform_eq (Descriptor.of_decode hd).1 (m.refreshed d.space) m.registers.pc
  refine ⟨op, hop, hcarries, ?_⟩
  simp only [step, hrunning, Bool.false_eq_true, ↓reduceIte, hd, hperform]
  rfl

end Machine

/-! ### Operand bytes -/

/-- A byte somewhere behind the first one read. -/
lemma headD_drop_readBytes {read : UInt16 → UInt8} {address : UInt16} {count n : Nat}
    (h : n < count) : ((readBytes read address count).drop n).headD 0 =
      read (address + UInt16.ofNat n) := by
  rw [List.headD_eq_head?_getD, List.head?_drop, readBytes_eq_map, List.getElem?_map,
    getElem?_addressesFrom h]
  rfl

namespace Instruction

/-- The instruction that stands at an address of memory. -/
def standing (read : UInt16 → UInt8) (address : UInt16) (d : Descriptor) : Instruction :=
  ⟨address, readBytes read address d.size, d⟩

variable {read : UInt16 → UInt8} {address : UInt16} {d : Descriptor}

lemma next_standing : (standing read address d).next = address + UInt16.ofNat d.size := by
  simp [standing, next, size]

/-- The operand bytes of an instruction. -/
lemma headD_operands {n : Nat} (h : d.space.operandOffset + n < d.size) :
    (((standing read address d).bytes.drop d.space.operandOffset).drop n).headD 0 =
      read (d.space.operandsAt address + UInt16.ofNat n) := by
  rw [standing, List.drop_drop, headD_drop_readBytes h, Space.operandsAt, UInt16.ofNat_add,
    UInt16.add_assoc]

/-- The operand bytes of an instruction end with it. -/
lemma offset_add_lt {n : Nat} (h : n < d.template.width) :
    d.space.operandOffset + n < d.size := by
  unfold Descriptor.size
  cases d.space <;> simp only [Space.operandOffset, Space.prefixBytes, List.length_cons,
    List.length_nil] <;> omega

/-- The last operand says where a jump or call leads if at most a condition is in front of it. -/
lemma firstTarget?_values {slot : Slot}
    (hslots : d.template.slots = [slot] ∨ ∃ s, d.template.slots = [.named s, slot]) :
    firstTarget? (standing read address d).values =
      firstTarget? [slot.value (address + UInt16.ofNat d.size)
        ((standing read address d).bytes.drop d.space.operandOffset)] := by
  rw [← @next_standing read, values]
  rcases hslots with hslots | ⟨s, hslots⟩
  · simp [standing, hslots, slotValues]
  · simp [standing, hslots, slotValues, Slot.value, Slot.width, firstTarget?]

/-- A word in the instruction is where it leads. -/
lemma firstTarget?_word
    (hslots : d.template.slots = [.word] ∨ ∃ s, d.template.slots = [.named s, .word]) :
    firstTarget? (standing read address d).values =
      some (wordOf (read (d.space.operandsAt address))
        (read (d.space.operandsAt address + 1))) := by
  have hwidth : d.template.width = 2 := by
    rcases hslots with hslots | ⟨s, hslots⟩ <;> rw [Template.width, hslots] <;> rfl
  have hlow := @headD_operands read address d 0
    (offset_add_lt (by omega))
  have hhigh := @headD_operands read address d 1
    (offset_add_lt (by omega))
  rw [List.drop_zero, show UInt16.ofNat 0 = 0 from rfl, UInt16.add_zero] at hlow
  rw [List.drop_one] at hhigh
  rw [firstTarget?_values hslots, Slot.value, firstTarget?, hlow, hhigh]
  rfl

/-- A distance in the instruction is measured from behind it. -/
lemma firstTarget?_relative
    (hslots : d.template.slots = [.relative] ∨ ∃ s, d.template.slots = [.named s, .relative]) :
    firstTarget? (standing read address d).values =
      some (address + UInt16.ofNat d.size + signExtend (read (d.space.operandsAt address))) := by
  have hwidth : d.template.width = 1 := by
    rcases hslots with hslots | ⟨s, hslots⟩ <;> rw [Template.width, hslots] <;> rfl
  have hlow := @headD_operands read address d 0
    (offset_add_lt (by omega))
  rw [List.drop_zero, show UInt16.ofNat 0 = 0 from rfl, UInt16.add_zero] at hlow
  rw [firstTarget?_values hslots, Slot.value, firstTarget?, hlow]

end Instruction

/-! ### The catalog -/

/-- The register that a jump through a register points with. -/
def Template.pointer? (template : Template) : Option WordReg :=
  match template.slots with
  | [.named text] => WordReg.ofPointer? text
  | _ => none

/-- The flag that a condition asks for by its name in a template, and whether it is to be set. -/
def Flags.asked? (name : String) : Option ((Flags → Bool) × Bool) :=
  match name with
  | "z" => some (zero, true)
  | "nz" => some (zero, false)
  | "c" => some (carry, true)
  | "nc" => some (carry, false)
  | "pe" => some (parity, true)
  | "po" => some (parity, false)
  | "m" => some (sign, true)
  | "p" => some (sign, false)
  | _ => none

/-- Whether the condition in a template is met; that of a loop is that `b`, counted down, is not
zero. -/
def Template.takes? (template : Template) (r : Registers) : Option Bool :=
  match template.mnemonic, template.slots with
  | .djnz, _ => some (r.main.b - 1 != 0)
  | _, .named text :: _ => (Flags.asked? text).map fun (flag, isSet) => flag r.flags == isSet
  | _, _ => none

/-- A condition holds if the flag that its name asks for is as it is to be. -/
lemma Condition.asked?_of_ofName? {name : String} {c : Condition} (hc : ofName? name = some c)
    (f : Flags) :
    (Flags.asked? name).map (fun (flag, isSet) => flag f == isSet) = some (c.holds f) := by
  unfold ofName? at hc
  split_ifs at hc with h h h h h h h h <;> obtain rfl := Option.some.inj hc <;> subst h <;>
    simp [Flags.asked?, holds]

namespace Machine

/-- Stack pointer and memory are as they were. -/
def KeepsStack (after m : Machine Memory) : Prop :=
  after.registers.sp = m.registers.sp ∧ after.memory = m.memory

/-- A word was put on the stack, and memory is otherwise as it was. -/
def Pushed (after m : Machine Memory) (w : UInt16) : Prop :=
  after.registers.sp = m.registers.sp - 2 ∧
    after.memory = Bus.writeWord m.memory (m.registers.sp - 2) w

/-- A word was taken from the stack, and memory is as it was. -/
def Popped (after m : Machine Memory) : Prop :=
  after.registers.sp = m.registers.sp + 2 ∧ after.memory = m.memory

end Machine

/-- Whether a step from `m` to `after` goes where an instruction leads by what the catalog says
about it: its category, its target, and the condition in its template. -/
def Instruction.Governs (i : Instruction) (m after : Machine Memory) (report : StepReport) : Prop :=
  match i.category with
  | .plain =>
    report.status = .running ∧
      (report.next = i.next ∨
        i.descriptor.template.mnemonic ∈ Mnemonic.repeating ∧ report.next = i.address)
  | .conditionalJump =>
    report.status = .running ∧ after.KeepsStack m ∧
      ∃ target taken, i.target? = some target ∧
        i.descriptor.template.takes? m.registers = some taken ∧
        report.next = if taken then target else i.next
  | .unconditionalJump =>
    report.status = .running ∧ after.KeepsStack m ∧
      match i.descriptor.template.pointer? with
      | some register => report.next = m.registers.word register
      | none => i.target? = some report.next
  | .conditionalCall =>
    report.status = .running ∧
      ∃ target taken, i.target? = some target ∧
        i.descriptor.template.takes? m.registers = some taken ∧
        if taken then report.next = target ∧ after.Pushed m i.next
        else report.next = i.next ∧ after.KeepsStack m
  | .unconditionalCall =>
    report.status = .running ∧ i.target? = some report.next ∧ after.Pushed m i.next
  | .unconditionalReturn =>
    report.status = .running ∧ report.next = m.readWord m.registers.sp ∧ after.Popped m
  | .other =>
    report.status = .running ∧
      ∃ taken, i.descriptor.template.takes? m.registers = some taken ∧
        if taken then report.next = m.readWord m.registers.sp ∧ after.Popped m
        else report.next = i.next ∧ after.KeepsStack m
  | .unconditionalRestart =>
    report.status = .running ∧ after.Pushed m i.next ∧
      ∃ text, i.descriptor.template.slots = [.literal text] ∧
        Expr.evaluateWord (.bare 0) text = .ok report.next
  | .halt =>
    report.status = .halted ∧ after.isHalted = true ∧ report.next = i.next ∧ after.KeepsStack m

namespace Machine

/-! ### Categories -/

section Governs

variable {m m' : Machine Memory} {i : Instruction} {target : UInt16} {taken : Bool}

/-- Jumps and calls have the first target among their operands. -/
lemma target?_eq (h : i.category = .conditionalJump ∨ i.category = .unconditionalJump ∨
      i.category = .conditionalCall ∨ i.category = .unconditionalCall) :
    i.target? = Instruction.firstTarget? i.values := by
  rcases h with h | h | h | h <;> simp [Instruction.target?, h]

section Stack

variable (hsp : m'.registers.sp = m.registers.sp) (hmemory : m'.memory = m.memory)

include hsp hmemory

/-- A jump on a condition goes to its target if the condition is met. -/
lemma governs_conditionalJump (hcategory : i.category = .conditionalJump)
    (htarget : i.target? = some target)
    (htakes : i.descriptor.template.takes? m.registers = some taken) :
    i.Governs m (finish (m'.jumpIf taken target) i.address i.next).1
      (finish (m'.jumpIf taken target) i.address i.next).2 := by
  unfold Instruction.Governs
  rw [hcategory]
  refine ⟨?_, ⟨hsp, hmemory⟩, target, taken, htarget, htakes, ?_⟩ <;> cases taken <;> rfl

/-- A jump goes to its target. -/
lemma governs_unconditionalJump (hcategory : i.category = .unconditionalJump)
    (htarget : match i.descriptor.template.pointer? with
      | some register => target = m.registers.word register
      | none => i.target? = some target) :
    i.Governs m (finish (m'.jumpIf true target) i.address i.next).1
      (finish (m'.jumpIf true target) i.address i.next).2 := by
  unfold Instruction.Governs
  rw [hcategory]
  exact ⟨rfl, ⟨hsp, hmemory⟩, htarget⟩

/-- What a call that takes place leaves on the stack. -/
lemma pushed_callIf (next : UInt16) :
    (finish (m'.callIf true target next) i.address i.next).1.Pushed m next := by
  refine ⟨congrArg (· - 2) hsp, ?_⟩
  change Bus.writeWord m'.memory (m'.registers.sp - 2) next = _
  rw [hsp, hmemory]

/-- A call leaves the next address on the stack. -/
lemma governs_unconditionalCall (hcategory : i.category = .unconditionalCall)
    (htarget : i.target? = some target) :
    i.Governs m (finish (m'.callIf true target i.next) i.address i.next).1
      (finish (m'.callIf true target i.next) i.address i.next).2 := by
  unfold Instruction.Governs
  rw [hcategory]
  exact ⟨rfl, htarget, pushed_callIf hsp hmemory _⟩

/-- A call on a condition leaves the next address on the stack if the condition is met. -/
lemma governs_conditionalCall (hcategory : i.category = .conditionalCall)
    (htarget : i.target? = some target)
    (htakes : i.descriptor.template.takes? m.registers = some taken) :
    i.Governs m (finish (m'.callIf taken target i.next) i.address i.next).1
      (finish (m'.callIf taken target i.next) i.address i.next).2 := by
  unfold Instruction.Governs
  rw [hcategory]
  cases taken with
  | true =>
    exact ⟨rfl, target, true, htarget, htakes, rfl, pushed_callIf hsp hmemory _⟩
  | false => exact ⟨rfl, target, false, htarget, htakes, rfl, hsp, hmemory⟩

/-- A restart is a call of the address in its template. -/
lemma governs_unconditionalRestart (hcategory : i.category = .unconditionalRestart) {text : String}
    (hslots : i.descriptor.template.slots = [.literal text])
    (htext : Expr.evaluateWord (.bare 0) text = .ok target) :
    i.Governs m (finish (m'.callIf true target i.next) i.address i.next).1
      (finish (m'.callIf true target i.next) i.address i.next).2 := by
  unfold Instruction.Governs
  rw [hcategory]
  exact ⟨rfl, pushed_callIf hsp hmemory _, text, hslots, htext⟩

/-- A return that takes place goes to the address on the stack. -/
lemma next_returnIf : (finish (m'.returnIf true) i.address i.next).2.next =
    m.readWord m.registers.sp := by
  change Bus.readWord m'.memory m'.registers.sp = Bus.readWord m.memory m.registers.sp
  rw [hsp, hmemory]

/-- A return takes the address on the stack. -/
lemma governs_unconditionalReturn (hcategory : i.category = .unconditionalReturn) :
    i.Governs m (finish (m'.returnIf true) i.address i.next).1
      (finish (m'.returnIf true) i.address i.next).2 := by
  unfold Instruction.Governs
  rw [hcategory]
  exact ⟨rfl, next_returnIf hsp hmemory, congrArg (· + 2) hsp, hmemory⟩

/-- A return on a condition takes the address on the stack if the condition is met. -/
lemma governs_other (hcategory : i.category = .other)
    (htakes : i.descriptor.template.takes? m.registers = some taken) :
    i.Governs m (finish (m'.returnIf taken) i.address i.next).1
      (finish (m'.returnIf taken) i.address i.next).2 := by
  unfold Instruction.Governs
  rw [hcategory]
  cases taken with
  | true =>
    exact ⟨rfl, true, htakes, next_returnIf hsp hmemory, congrArg (· + 2) hsp, hmemory⟩
  | false => exact ⟨rfl, false, htakes, rfl, hsp, hmemory⟩

/-- A halt waits behind the instruction. -/
lemma governs_halt (hcategory : i.category = .halt) {events : List Event} :
    i.Governs m (finish ⟨m', .halt, events⟩ i.address i.next).1
      (finish ⟨m', .halt, events⟩ i.address i.next).2 := by
  unfold Instruction.Governs
  rw [hcategory]
  exact ⟨rfl, rfl, rfl, hsp, hmemory⟩

end Stack

/-- Any other instruction goes on, but a block instruction may repeat itself. -/
lemma governs_plain {outcome : Outcome Memory} (hcategory : i.category = .plain)
    (hflow : outcome.flow = .next ∨
      i.descriptor.template.mnemonic ∈ Mnemonic.repeating ∧ outcome.flow = .again) :
    i.Governs m (finish outcome i.address i.next).1 (finish outcome i.address i.next).2 := by
  unfold Instruction.Governs
  rw [hcategory]
  rcases hflow with hflow | ⟨hrepeats, hflow⟩
  · simp [finish, hflow, Flow.target]
  · simp [finish, hflow, Flow.target, hrepeats]

end Governs

/-! ### Steps -/

section Steps

variable {m : Machine Memory} {d : Descriptor} {transfer : Transfer} {operands : Operands}
  {outcome : Outcome Memory}

/-- The category of an instruction is that of its template. -/
lemma category_standing {read : UInt16 → UInt8} {address : UInt16} {mnemonic : Mnemonic}
    {slots : List Slot} (ht : d.template = ⟨mnemonic, slots⟩) :
    (Instruction.standing read address d).category = .ofTemplate ⟨mnemonic, slots⟩ := by
  rw [← ht]
  rfl

/-- The condition that a template names is met if the flags meet it. -/
lemma takes?_of_ofName? {mnemonic : Mnemonic} {text : String} {slots : List Slot} {c : Condition}
    (ht : d.template = ⟨mnemonic, .named text :: slots⟩) (hmnemonic : mnemonic ≠ .djnz)
    (hc : Condition.ofName? text = some c) :
    d.template.takes? m.registers =
      some (conditionHolds (m.refreshed d.space).registers.flags (some c)) := by
  rw [ht, Template.takes?]
  simp only [Condition.asked?_of_ofName? hc]
  rfl

lemma descriptor_standing {read : UInt16 → UInt8} {address : UInt16} :
    (Instruction.standing read address d).descriptor = d := rfl

/-- **An outcome goes where the instruction leads.**

**Proof sketch.** One case for each form of a template that transfers control.  The form gives the
category, and with it what is left to be said about the outcome. -/
theorem governs_of_yields (htransfer : d.template.transfer? = some transfer)
    (hfetches : transfer.Fetches m.read (d.space.operandsAt m.registers.pc) operands)
    (hyields : transfer.Yields (m.refreshed d.space) operands
      (Instruction.standing m.read m.registers.pc d).next outcome) :
    (Instruction.standing m.read m.registers.pc d).Governs m
      (finish outcome m.registers.pc (Instruction.standing m.read m.registers.pc d).next).1
      (finish outcome m.registers.pc (Instruction.standing m.read m.registers.pc d).next).2 := by
  cases ht : d.template with | mk mnemonic slots
  have hslots : d.template.slots = slots := by rw [ht]
  have hcategory := @category_standing d m.read m.registers.pc _ _ ht
  have hnext := @Instruction.next_standing m.read m.registers.pc d
  rw [ht] at htransfer
  simp only [Template.transfer?] at htransfer
  split at htransfer
  -- jumps to an address, through a register, and on a condition
  · obtain rfl := Option.some.inj htransfer
    obtain rfl := hyields
    have hpointer : d.template.pointer? = none := by simp [Template.pointer?, ht]
    refine governs_unconditionalJump rfl rfl hcategory ?_
    rw [descriptor_standing, hpointer, target?_eq (.inr (.inl hcategory)),
      Instruction.firstTarget?_word (.inl hslots), hfetches]
  · obtain ⟨register, hregister, rfl⟩ := Option.map_eq_some_iff.1 htransfer
    obtain rfl := hyields
    have hpointer : d.template.pointer? = some register := by
      simp [Template.pointer?, ht, hregister]
    refine governs_unconditionalJump rfl rfl hcategory ?_
    rw [descriptor_standing, hpointer]
    cases register <;> rfl
  · obtain ⟨c, hc, rfl⟩ := Option.map_eq_some_iff.1 htransfer
    obtain rfl := hyields
    refine governs_conditionalJump rfl rfl hcategory ?_ ?_
    · rw [target?_eq (.inl hcategory), Instruction.firstTarget?_word (.inr ⟨_, hslots⟩), hfetches]
    · exact takes?_of_ofName? ht (by decide) hc
  -- relative jumps, and on a condition or a count
  · obtain rfl := Option.some.inj htransfer
    obtain rfl := hyields
    have hpointer : d.template.pointer? = none := by simp [Template.pointer?, ht]
    refine governs_unconditionalJump rfl rfl hcategory ?_
    rw [descriptor_standing, hpointer, target?_eq (.inr (.inl hcategory)),
      Instruction.firstTarget?_relative (.inl hslots), hfetches, hnext]
  · obtain ⟨c, hc, rfl⟩ := Option.map_eq_some_iff.1 htransfer
    obtain rfl := hyields
    refine governs_conditionalJump rfl rfl hcategory ?_ ?_
    · rw [target?_eq (.inl hcategory), Instruction.firstTarget?_relative (.inr ⟨_, hslots⟩),
        hfetches, hnext]
    · exact takes?_of_ofName? ht (by decide) hc
  · obtain rfl := Option.some.inj htransfer
    obtain rfl := hyields
    refine governs_conditionalJump rfl rfl hcategory ?_ ?_
    · rw [target?_eq (.inl hcategory), Instruction.firstTarget?_relative (.inl hslots), hfetches,
        hnext]
    · rw [descriptor_standing, ht]
      rfl
  -- calls, and on a condition
  · obtain rfl := Option.some.inj htransfer
    obtain rfl := hyields
    refine governs_unconditionalCall rfl rfl hcategory ?_
    rw [target?_eq (.inr (.inr (.inr hcategory))), Instruction.firstTarget?_word (.inl hslots),
      hfetches]
  · obtain ⟨c, hc, rfl⟩ := Option.map_eq_some_iff.1 htransfer
    obtain rfl := hyields
    refine governs_conditionalCall rfl rfl hcategory ?_ ?_
    · rw [target?_eq (.inr (.inr (.inl hcategory))),
        Instruction.firstTarget?_word (.inr ⟨_, hslots⟩), hfetches]
    · exact takes?_of_ofName? ht (by decide) hc
  -- returns, and on a condition
  iterate 3
    · obtain rfl := Option.some.inj htransfer
      obtain ⟨m', hsp, hmemory, rfl⟩ := hyields
      exact governs_unconditionalReturn hsp hmemory hcategory
  · obtain ⟨c, hc, rfl⟩ := Option.map_eq_some_iff.1 htransfer
    obtain ⟨m', hsp, hmemory, rfl⟩ := hyields
    refine governs_other hsp hmemory hcategory ?_
    exact takes?_of_ofName? ht (by decide) hc
  -- restarts
  · obtain ⟨target, htarget, rfl⟩ := Option.map_eq_some_iff.1 htransfer
    obtain rfl := hyields
    refine governs_unconditionalRestart rfl rfl hcategory hslots ?_
    cases hvalue : Expr.evaluateWord (.bare 0) _ with
    | error fault => simp [hvalue, Except.toOption] at htarget
    | ok w => simpa [hvalue, Except.toOption] using htarget
  -- halt
  · obtain rfl := Option.some.inj htransfer
    obtain ⟨hflow, hmachine⟩ := hyields
    obtain ⟨machine, flow, events⟩ := outcome
    obtain rfl := hflow
    obtain rfl := hmachine
    exact governs_halt rfl rfl hcategory
  -- no template of these mnemonics has another form
  iterate 9
    · simp at htransfer
  -- everything else
  · have hplain : (Instruction.standing m.read m.registers.pc d).category = .plain := by
      rw [hcategory]
      unfold Category.ofTemplate
      split <;> first | contradiction | rfl
    refine governs_plain hplain ?_
    obtain rfl := Option.some.inj htransfer
    rw [descriptor_standing, ht]
    split at hyields
    · next hrepeats => exact hyields.imp_right fun hagain => ⟨hrepeats, hagain⟩
    · exact .inl hyields

/-- **A step goes where the instruction leads.**  The operand bytes that are fetched end in front
of the address behind the instruction, and the step, which never fails, ends where the category of
the instruction, its target and the condition in its template say. -/
theorem step_follows_catalog (hrunning : m.isHalted = false)
    (hd : Descriptor.decode m.read m.registers.pc = .ok d) :
    ∃ (i : Instruction) (op : Operation) (after : Machine Memory) (report : StepReport),
      m.memory.buffer.decode? m.registers.pc = some i ∧ i.descriptor = d ∧
      i.next = m.registers.pc + UInt16.ofNat d.size ∧
      Operation.ofOpcode? d.space d.byte = some op ∧
      d.space.behind (op.fetch m.read (d.space.operandsAt m.registers.pc)).2 = i.next ∧
      m.step = (after, .ok report) ∧ report.address = m.registers.pc ∧
      after.registers.pc = report.next ∧ i.Governs m after report := by
  obtain ⟨op, hop, hcarries, hstep⟩ := step_eq hrunning hd
  have hnext := @Instruction.next_standing m.read m.registers.pc d
  refine ⟨Instruction.standing m.read m.registers.pc d, op, _, _, Memory.decode?_buffer hd, rfl,
    hnext, hop, (hcarries.behind_eq _ _).trans hnext.symm, hstep, rfl, rfl, ?_⟩
  rw [← hnext]
  exact governs_of_yields hcarries.transfer_eq (op.fetch_transfer _ _)
    (execute_transfer _ op _ _)

/-- A machine with a relative jump at the first address goes where the jump leads. -/
theorem step_follows_catalog_jump :
    ∃ (m after : Machine Memory) (i : Instruction) (report : StepReport),
      m.memory = Memory.blank.load 0 [0x18, 0x05] ∧ m.step = (after, .ok report) ∧
        after.registers.pc = report.next ∧ i.Governs m after report := by
  obtain ⟨d, hd⟩ := exists_of_isOk
    (x := Descriptor.decode
      (start (Memory.blank.load 0 [0x18, 0x05]) {}).read
      (start (Memory.blank.load 0 [0x18, 0x05]) {}).registers.pc)
    (by decide +kernel)
  obtain ⟨i, -, after, report, -, -, -, -, -, hstep, -, hpc, hgoverns⟩ :=
    step_follows_catalog rfl hd
  exact ⟨_, after, i, report, rfl, hstep, hpc, hgoverns⟩

end Steps

end Machine

end Z80
