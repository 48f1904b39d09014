import Z80.Operation.Fetch
import Z80.Proofs.Catalog.Roles

/-!
# Transfers of control in both tables

The catalog says by the text of a template how an instruction passes control on, the table of
operations by what is executed.  The two tables hold the same opcodes and say the same about each.

## Main definitions

* `Z80.Transfer` — the ways in which control passes on.
* `Z80.Template.transfer?`, `Z80.Operation.transfer` — those of a template and of an operation.
* `Z80.Operation.width` — the number of operand bytes that an operation fetches.
* `Z80.Operation.Carries` — what an operation has in common with its descriptor.

## Main results

* `Z80.Operation.fetch_eq` — an operation fetches as many bytes as it has.
* `Z80.Operation.carries_of_lookup?` — every opcode of the catalog has an operation that agrees
  with its descriptor.
-/

namespace Z80

/-- The ways in which an instruction passes control on. -/
inductive Transfer where
  /-- To the next instruction. -/
  | onward
  /-- To the next instruction, or to the same one once more. -/
  | again
  | halt
  /-- To the address that follows the opcode, if a condition is met. -/
  | jump (condition : Option Condition)
  /-- To an address at a distance, if a condition is met. -/
  | jumpRelative (condition : Option Condition)
  /-- To where a register points. -/
  | jumpTo (register : WordReg)
  /-- To an address at a distance, as long as a register can be counted down. -/
  | loop
  | call (condition : Option Condition)
  | ret (condition : Option Condition)
  | restart (address : UInt16)
  deriving DecidableEq, Repr

/-! ### Templates -/

/-- The condition that a text in a template names. -/
def Condition.ofName? (name : String) : Option Condition :=
  if name = "nz" then some nonzero
  else if name = "z" then some zero
  else if name = "nc" then some noCarry
  else if name = "c" then some carry
  else if name = "po" then some parityOdd
  else if name = "pe" then some parityEven
  else if name = "p" then some positive
  else if name = "m" then some negative
  else none

/-- The register that a text in a template points with. -/
def WordReg.ofPointer? (text : String) : Option WordReg :=
  if text = "(hl)" then some hl
  else if text = "(ix)" then some (index .ix)
  else if text = "(iy)" then some (index .iy)
  else none

/-- The mnemonics of the block instructions that repeat themselves. -/
def Mnemonic.repeating : List Mnemonic :=
  [.ldir, .lddr, .cpir, .cpdr, .inir, .indr, .otir, .otdr]

/-- How the instructions with a template pass control on, if the template is of the form that its
mnemonic has. -/
def Template.transfer? (template : Template) : Option Transfer :=
  match template.mnemonic, template.slots with
  | .jp, [.word] => some (.jump none)
  | .jp, [.named s] => (WordReg.ofPointer? s).map .jumpTo
  | .jp, [.named s, .word] => (Condition.ofName? s).map fun c => .jump (some c)
  | .jr, [.relative] => some (.jumpRelative none)
  | .jr, [.named s, .relative] => (Condition.ofName? s).map fun c => .jumpRelative (some c)
  | .djnz, [.relative] => some .loop
  | .call, [.word] => some (.call none)
  | .call, [.named s, .word] => (Condition.ofName? s).map fun c => .call (some c)
  | .ret, [] | .reti, [] | .retn, [] => some (.ret none)
  | .ret, [.named s] => (Condition.ofName? s).map fun c => .ret (some c)
  | .rst, [.literal s] => (Expr.evaluateWord (.bare 0) s).toOption.map .restart
  | .halt, [] => some .halt
  | .jp, _ | .jr, _ | .djnz, _ | .call, _ | .ret, _ | .reti, _ | .retn, _ | .rst, _ | .halt, _ =>
    none
  | mnemonic, _ => some (if mnemonic ∈ Mnemonic.repeating then .again else .onward)

/-! ### Operations -/

namespace Operation

/-- How an operation passes control on. -/
def transfer : Operation → Transfer
  | halt => .halt
  | jump condition => .jump condition
  | jumpTo register => .jumpTo register
  | jumpRelative condition => .jumpRelative condition
  | loop => .loop
  | call condition => .call condition
  | ret condition => .ret condition
  | returnFromInterrupt => .ret none
  | restart address => .restart address
  | block _ _ true => .again
  | _ => .onward

/-- The number of operand bytes that an operation fetches. -/
def width (op : Operation) : Nat :=
  (if op.isIndexed then 1 else 0) + op.immediate.width

/-- **An operation fetches as many bytes as it has.** -/
theorem fetch_eq (op : Operation) (read : UInt16 → UInt8) (address : UInt16) :
    (op.fetch read address).2 = address + UInt16.ofNat op.width := by
  unfold fetch fetchDisplacement width
  cases op.isIndexed <;> cases op.immediate <;> simp [Immediate.width, UInt16.add_assoc]

/-- What an operation has in common with the descriptor of its opcode: the way control passes on
and the number of operand bytes. -/
structure Carries (op : Operation) (d : Descriptor) : Prop where
  transfer_eq : d.template.transfer? = some op.transfer
  width_eq : op.width = d.template.width

/-- Whether the two tables agree about an opcode. -/
def tablesAgree (space : Space) (b : UInt8) : Bool :=
  match ofOpcode? space b, Descriptor.lookup? space b with
  | none, none => true
  | some op, some d =>
    d.template.transfer? = some op.transfer && op.width = d.template.width
  | _, _ => false

/-- **Every opcode of the catalog has an operation that agrees with its descriptor.** -/
theorem carries_of_lookup? {space : Space} {b : UInt8} {d : Descriptor}
    (h : Descriptor.lookup? space b = some d) :
    ∃ op, ofOpcode? space b = some op ∧ op.Carries d := by
  have key : tablesAgree space b = true := forall_opcode (by decide +kernel) space b
  unfold tablesAgree at key
  rw [h] at key
  cases hop : ofOpcode? space b with
  | none => simp [hop] at key
  | some op =>
    simp only [hop, Bool.and_eq_true, decide_eq_true_eq] at key
    exact ⟨op, rfl, key.1, key.2⟩

end Operation

/-! ### The address behind an instruction -/

/-- The operand bytes end in front of the address behind the instruction. -/
theorem Operation.Carries.behind_eq {op : Operation} {d : Descriptor} (h : op.Carries d)
    (read : UInt16 → UInt8) (address : UInt16) :
    d.space.behind (op.fetch read (d.space.operandsAt address)).2 =
      address + UInt16.ofNat d.size := by
  have hsize : d.size = d.space.prefixBytes.length + 1 + op.width := by
    rw [Descriptor.size, h.width_eq]
  rw [fetch_eq, hsize, Space.operandsAt]
  cases d.space <;>
    simp [Space.behind, Space.operandOffset, Space.prefixBytes, UInt16.ofNat_add] <;> grind

end Z80
