import Z80.Proofs.Machine.Operand

/-!
# Rounds of block instructions

A block instruction that repeats itself is executed once for each of its rounds: behind every round
but the last, control is in front of it again.  Every step looks the instruction up anew, so the
rounds follow on each other only as long as its two bytes stay in memory.

## Main definitions

* `Z80.rounds` — the number of rounds that a count asks for.
* `Z80.Machine.movedBy` — the address that a walk through memory has come to.
* `Z80.Machine.IsAtBlock` — whether a machine is in front of a block instruction that repeats
  itself.
* `Z80.Machine.stepped` — the machine behind a number of steps.
* `Z80.Machine.Leaves` — whether a machine leaves the two bytes that it is in front of with the last
  of a number of steps.

## Main results

* `Z80.Machine.step_block` — a step over a block instruction is one round.
* `Z80.Machine.stepped_of_rounds` — steps over an instruction one behind the other, from what each
  of them does.
-/

namespace Z80

/-- The opcode of a block instruction that repeats itself, behind the prefix of its space. -/
def BlockKind.opcode : (kind : BlockKind) → (downward : Bool) → UInt8
  | copy, false => 0xB0
  | compare, false => 0xB1
  | input, false => 0xB2
  | output, false => 0xB3
  | copy, true => 0xB8
  | compare, true => 0xB9
  | input, true => 0xBA
  | output, true => 0xBB

/-! ### Counts -/

/-- The number of rounds that a count asks for: zero asks for as many as there are words. -/
def rounds (count : UInt16) : Nat :=
  if count = 0 then 65536 else count.toNat

lemma rounds_pos (count : UInt16) : 0 < rounds count := by
  unfold rounds
  split
  · decide
  · next h => exact Nat.pos_of_ne_zero fun hzero => h (UInt16.toNat_inj.1 hzero)

/-- A count comes down one by one. -/
lemma sub_ofNat_succ (count : UInt16) (k : Nat) :
    count - UInt16.ofNat (k + 1) = count - UInt16.ofNat k - 1 := by
  rw [UInt16.ofNat_add]
  grind

/-- A count has come down to zero behind the last round that it asks for, and behind no other. -/
lemma sub_ofNat_eq_zero_iff {count : UInt16} {k : Nat} (hpos : 0 < k) (hle : k ≤ rounds count) :
    count - UInt16.ofNat k = 0 ↔ k = rounds count := by
  have hlt := count.toNat_lt
  rw [← UInt16.toNat_inj, UInt16.toNat_sub, UInt16.toNat_ofNat']
  unfold rounds at hle ⊢
  split at hle
  · next h =>
    subst h
    simp
    omega
  · next h =>
    simp [h]
    omega

/-- The refresh register is moved on bit by bit. -/
lemma refreshBy_add (r : UInt8) (i j : Nat) :
    refreshBy (refreshBy r i) j = refreshBy r (i + j) := by
  have := r.toNat_lt
  apply UInt8.toNat_inj.1
  simp [refreshBy]
  omega

namespace Machine

/-- An address moved on by a number of places, up or down. -/
def movedBy (downward : Bool) (address : UInt16) (count : Nat) : UInt16 :=
  if downward then address - UInt16.ofNat count else address + UInt16.ofNat count

@[simp]
lemma movedBy_zero (downward : Bool) (address : UInt16) : movedBy downward address 0 = address := by
  cases downward <;> simp [movedBy]

/-- Addresses are moved on place by place. -/
lemma movedBy_succ (downward : Bool) (address : UInt16) (count : Nat) :
    movedBy downward address (count + 1) = moved downward (movedBy downward address count) := by
  cases downward
  · simp [movedBy, moved, UInt16.ofNat_add, UInt16.add_assoc]
  · simp only [movedBy, moved, UInt16.ofNat_add, ↓reduceIte]
    grind

lemma movedBy_one (downward : Bool) (address : UInt16) :
    movedBy downward address 1 = moved downward address := by
  rw [movedBy_succ, movedBy_zero]

variable {M : Type} [Bus M]

/-! ### One round -/

/-- The bytes at the program counter are those of a block instruction that repeats itself. -/
def IsAtBlock (m : Machine M) (kind : BlockKind) (downward : Bool) : Prop :=
  m.read m.registers.pc = 0xED ∧ m.read (m.registers.pc + 1) = kind.opcode downward

/-- The opcode of a block instruction that repeats itself has no operand bytes and the operation of
its kind. -/
lemma exists_lookup?_opcode (kind : BlockKind) (downward : Bool) :
    ∃ d, Descriptor.lookup? .misc (kind.opcode downward) = some d ∧ d.size = 2 ∧
      Operation.ofOpcode? d.space d.byte = some (.block kind downward true) := by
  have key : ((Descriptor.lookup? .misc (kind.opcode downward)).any fun d =>
      d.size = 2 && Operation.ofOpcode? d.space d.byte = some (.block kind downward true)) =
        true := by
    cases kind <;> cases downward <;> decide +kernel
  obtain ⟨d, hd, h⟩ := (Option.any_eq_true _ _).1 key
  rw [Bool.and_eq_true, decide_eq_true_eq, decide_eq_true_eq] at h
  exact ⟨d, hd, h.1, h.2⟩

/-- **A step over a block instruction that repeats itself is one round**, behind which control is
in front of the instruction again or goes on behind it. -/
theorem step_block {m : Machine M} {kind : BlockKind} {downward : Bool}
    (hrunning : m.isHalted = false) (h : m.IsAtBlock kind downward) :
    m.step =
      let round := (m.refreshed .misc).blockStep kind downward
      let next := if round.2.1 then m.registers.pc else m.registers.pc + 2
      (round.1.goTo next false, .ok ⟨m.registers.pc, next, .running, round.2.2⟩) := by
  obtain ⟨d, hlookup, hsize, hop⟩ := exists_lookup?_opcode kind downward
  have hspace : Space.startingAt m.read m.registers.pc = .misc := by
    rw [Space.startingAt, h.1]
    rfl
  have hdecode : Descriptor.decode m.read m.registers.pc = .ok d := by
    have hbyte : Space.misc.opcodeAt m.read m.registers.pc = kind.opcode downward := h.2
    simp only [Descriptor.decode, hspace, hbyte, hlookup]
  obtain ⟨op, hop', -, hstep⟩ := step_eq hrunning hdecode
  obtain rfl := Option.some.inj (hop.symm.trans hop')
  rw [hstep, (Descriptor.of_lookup? hlookup).1, hsize]
  simp only [execute, block, Bool.true_and, finish, Flow.target]
  cases ((m.refreshed .misc).blockStep kind downward).2.1 <;> rfl

/-! ### Rounds one behind the other -/

/-- The machine behind a number of steps. -/
def stepped (m : Machine M) : (count : Nat) → Machine M
  | 0 => m
  | count + 1 => (m.stepped count).step.1

/-- Whether control stays in front of the two bytes at the program counter for a number of steps and
goes on behind them with the last.  None of the steps halts, and each reports its events. -/
def Leaves (m : Machine M) (count : Nat) (events : Nat → List Event) : Prop :=
  ∀ k < count, (m.stepped k).step.2 =
    .ok ⟨m.registers.pc, if k + 1 = count then m.registers.pc + 2 else m.registers.pc, .running,
      events k⟩

/-- **Steps over an instruction one behind the other** lead through the states that its rounds lead
to, and out of it behind the last of them.

**Proof sketch.** Induction on the steps: in front of the last, each leaves the machine where the
next round begins. -/
theorem stepped_of_rounds {m : Machine M} {behind : Nat → Machine M} {events : Nat → List Event}
    {count : Nat}
    (hround : ∀ k < count, (if k = 0 then m else behind k).step =
      let next := if k + 1 = count then m.registers.pc + 2 else m.registers.pc
      ((behind (k + 1)).goTo next false, .ok ⟨m.registers.pc, next, .running, events k⟩))
    (hstays : ∀ k, (behind k).goTo m.registers.pc false = behind k) (hpos : 0 < count) :
    m.Leaves count events ∧ (∀ k, 0 < k → k < count → m.stepped k = behind k) ∧
      m.stepped count = (behind count).goTo (m.registers.pc + 2) false := by
  have hstepped : ∀ k < count, m.stepped k = if k = 0 then m else behind k := by
    intro k
    induction k with
    | zero => exact fun _ => rfl
    | succ k ih =>
      intro hk
      rw [stepped, ih (by omega), hround k (by omega), if_neg (by omega), if_neg (by omega)]
      exact hstays (k + 1)
  refine ⟨fun k hk => ?_, fun k hpos hk => ?_, ?_⟩
  · rw [hstepped k hk, hround k hk]
  · rw [hstepped k hk, if_neg (by omega)]
  · obtain ⟨k, rfl⟩ := Nat.exists_eq_add_of_lt hpos
    rw [Nat.zero_add, stepped, hstepped k (by omega), hround k (by omega)]
    simp

end Machine

end Z80
