import Z80.Proofs.Machine.Rounds

/-!
# Copies

`ldir` and `lddr` copy as many bytes as `bc` says, 65536 if it is zero, one behind the other from
where `hl` points to where `de` points.  Each byte is read when those before it have been written,
so a range that is copied on to itself further on repeats its first bytes.

## Main definitions

* `Z80.Memory.copied`, `Z80.Registers.copied`, `Z80.Machine.copied` — memory, registers and machine
  behind a number of rounds of a copy.

## Main results

* `Z80.Machine.step_copy` — a step over the instruction copies one byte.
* `Z80.Machine.stepped_copy` — the instruction copies all bytes, if it does not overwrite itself.
-/

namespace Z80

/-- Memory with a number of bytes copied from one address on to another one on, up or down, one
behind the other. -/
def Memory.copied (memory : Memory) (downward : Bool) (source target : UInt16) :
    (count : Nat) → Memory
  | 0 => memory
  | count + 1 =>
    let before := memory.copied downward source target count
    before.write (Machine.movedBy downward target count)
      (before.read (Machine.movedBy downward source count))

/-- Bytes on to which nothing is copied stay. -/
lemma Memory.read_copied {memory : Memory} {downward : Bool} {source target address : UInt16}
    {count : Nat} (h : ∀ k < count, Machine.movedBy downward target k ≠ address) :
    (memory.copied downward source target count).read address = memory.read address := by
  induction count with
  | zero => rfl
  | succ count ih =>
    rw [copied, read_write, if_neg (h count (Nat.lt_succ_self count))]
    exact ih fun k hk => h k (Nat.lt_succ_of_lt hk)

namespace Registers

/-- The registers behind a number of rounds of a copy; the program counter is that of the
instruction. -/
def copied (r : Registers) (downward : Bool) (count : Nat) : Registers :=
  let left := r.word .bc - UInt16.ofNat count
  let target := Machine.movedBy downward (r.word .de) count
  let source := Machine.movedBy downward (r.word .hl) count
  { (((r.setWord .hl source).setWord .de target).setWord .bc left).setFlags
      { r.flags with half := false, parity := left != 0, subtract := false } with
    r := refreshBy r.r (2 * count) }

lemma word_hl_copied (r : Registers) (downward : Bool) (count : Nat) :
    (r.copied downward count).word .hl = Machine.movedBy downward (r.word .hl) count :=
  wordOf_bytes _

lemma word_de_copied (r : Registers) (downward : Bool) (count : Nat) :
    (r.copied downward count).word .de = Machine.movedBy downward (r.word .de) count :=
  wordOf_bytes _

lemma word_bc_copied (r : Registers) (downward : Bool) (count : Nat) :
    (r.copied downward count).word .bc = r.word .bc - UInt16.ofNat count :=
  wordOf_bytes _

/-- One round of a copy. -/
lemma copied_one (r : Registers) (downward : Bool) :
    r.copied downward 1 =
      { (((r.setWord .hl (Machine.moved downward (r.word .hl))).setWord .de
          (Machine.moved downward (r.word .de))).setWord .bc (r.word .bc - 1)).setFlags
          { r.flags with half := false, parity := r.word .bc - 1 != 0, subtract := false } with
        r := refreshBy r.r 2 } := by
  simp only [copied, Machine.movedBy_one]
  rfl

/-- A copy goes on from where it has come to. -/
lemma copied_succ (r : Registers) (downward : Bool) (count : Nat) :
    r.copied downward (count + 1) = (r.copied downward count).copied downward 1 := by
  have hleft := sub_ofNat_succ (r.word .bc) count
  have hr : refreshBy r.r (2 * (count + 1)) = refreshBy (refreshBy r.r (2 * count)) 2 :=
    (refreshBy_add r.r (2 * count) 2).symm
  rw [copied_one, word_hl_copied, word_de_copied, word_bc_copied, ← hleft, ← Machine.movedBy_succ,
    ← Machine.movedBy_succ]
  simp only [copied, hr]
  rfl

end Registers

namespace Machine

/-- The machine behind a number of rounds of a copy, in front of the instruction. -/
def copied (m : Machine Memory) (downward : Bool) (count : Nat) : Machine Memory :=
  ⟨m.registers.copied downward count,
    m.memory.copied downward (m.registers.word .hl) (m.registers.word .de) count, m.board,
    m.isHalted⟩

lemma copied_succ (m : Machine Memory) (downward : Bool) (count : Nat) :
    m.copied downward (count + 1) = (m.copied downward count).copied downward 1 := by
  have hmemory : (m.copied downward (count + 1)).memory =
      ((m.copied downward count).copied downward 1).memory := by
    simp only [copied, Memory.copied, movedBy_zero, Registers.word_hl_copied,
      Registers.word_de_copied]
  simp only [copied, mk.injEq, and_true] at hmemory ⊢
  exact ⟨m.registers.copied_succ downward count, hmemory⟩

/-- One round of the instruction copies one byte. -/
lemma blockStep_copy (m : Machine Memory) (downward : Bool) :
    (m.refreshed .misc).blockStep .copy downward =
      (m.copied downward 1, m.registers.word .bc - 1 != 0, []) := by
  have hr : m.registers.refresh 2 = { m.registers with r := refreshBy m.registers.r 2 } :=
    m.registers.refresh_eq (.inr rfl)
  have hmemory : m.memory.copied downward (m.registers.word .hl) (m.registers.word .de) 1 =
      m.memory.write (m.registers.word .de) (m.memory.read (m.registers.word .hl)) := by
    simp [Memory.copied]
  simp only [blockStep, refreshed, Space.refreshCount, mapRegisters, hr, copied,
    Registers.copied_one, hmemory]
  rfl

/-- **A step over the instruction copies one byte.** -/
theorem step_copy {m : Machine Memory} {downward : Bool} (hrunning : m.isHalted = false)
    (h : m.IsAtBlock .copy downward) :
    m.step =
      let next := if m.registers.word .bc - 1 = 0 then m.registers.pc + 2 else m.registers.pc
      ((m.copied downward 1).goTo next false, .ok ⟨m.registers.pc, next, .running, []⟩) := by
  rw [step_block hrunning h, blockStep_copy]
  cases hmore : m.registers.word .bc - 1 != 0 <;> simp_all

/-! ### The whole copy -/

/-- Whether no byte that a machine in front of a copy is going to write is one of the two bytes at
the program counter. -/
def SparesItself (m : Machine Memory) (downward : Bool) : Prop :=
  ∀ k < rounds (m.registers.word .bc),
    movedBy downward (m.registers.word .de) k ≠ m.registers.pc ∧
      movedBy downward (m.registers.word .de) k ≠ m.registers.pc + 1

/-- An instruction that spares itself is still there behind some of its rounds. -/
lemma IsAtBlock.copied {m : Machine Memory} {kind : BlockKind} {downward : Bool}
    (h : m.IsAtBlock kind downward) (hspares : m.SparesItself downward) {count : Nat}
    (hcount : count ≤ rounds (m.registers.word .bc)) :
    (m.copied downward count).IsAtBlock kind downward :=
  ⟨(Memory.read_copied fun k hk => (hspares k (by omega)).1).trans h.1,
    (Memory.read_copied fun k hk => (hspares k (by omega)).2).trans h.2⟩

/-- A round of a copy, among those that `bc` asks for, is the last one if nothing is left behind
it. -/
lemma step_copied {m : Machine Memory} {downward : Bool} (hrunning : m.isHalted = false)
    (hat : m.IsAtBlock .copy downward) (hspares : m.SparesItself downward) {k : Nat}
    (hk : k < rounds (m.registers.word .bc)) :
    (if k = 0 then m else m.copied downward k).step =
      let next := if k + 1 = rounds (m.registers.word .bc) then m.registers.pc + 2
        else m.registers.pc
      ((m.copied downward (k + 1)).goTo next false, .ok ⟨m.registers.pc, next, .running, []⟩) := by
  have hlast := sub_ofNat_eq_zero_iff (Nat.succ_pos k) hk
  split
  · next hzero =>
    subst hzero
    rw [step_copy hrunning hat]
    simp only [← hlast]
    rfl
  · have hleft : (m.copied downward k).registers.word .bc - 1 =
        m.registers.word .bc - UInt16.ofNat (k + 1) := by
      rw [copied, Registers.word_bc_copied, sub_ofNat_succ]
    rw [step_copy (m := m.copied downward k) hrunning (hat.copied hspares (Nat.le_of_lt hk)), hleft,
      ← copied_succ]
    simp only [← hlast]
    rfl

/-- **A copy copies exactly as many bytes as `bc` says.**  If it does not overwrite itself, the
steps in front of the last leave control where it is, with the parity flag set; behind the last,
`bc` is zero, `hl` and `de` have moved by the number of bytes, and memory holds the copies.  Nothing
else has changed but the refresh register and three flags.

**Proof sketch.** The instruction spares itself, so every step finds it again and copies one more
byte.  The count comes down to zero behind the last byte and not before. -/
theorem stepped_copy (m : Machine Memory) (downward : Bool) (hrunning : m.isHalted = false)
    (hat : m.IsAtBlock .copy downward) (hspares : m.SparesItself downward) :
    let r := m.registers
    let count := rounds (r.word .bc)
    let source := movedBy downward (r.word .hl) count
    let target := movedBy downward (r.word .de) count
    m.Leaves count (fun _ => []) ∧
      (∀ k, 0 < k → k < count →
        (m.stepped k).registers.pc = r.pc ∧ (m.stepped k).registers.flags.parity = true) ∧
      m.stepped count = {
        registers := { ((r.setWord .hl source).setWord .de target).setWord .bc 0 with
          main.flags := { r.flags with half := false, parity := false, subtract := false }
          pc := r.pc + 2
          r := refreshBy r.r (2 * count) }
        memory := m.memory.copied downward (r.word .hl) (r.word .de) count
        board := m.board
        isHalted := false } := by
  intro r count source target
  have hpos : 0 < count := rounds_pos _
  have hstays : ∀ k, (m.copied downward k).goTo r.pc false = m.copied downward k := by
    intro k
    rw [copied, goTo, hrunning]
    rfl
  obtain ⟨hleaves, hbetween, hbehind⟩ :=
    @stepped_of_rounds _ _ m (m.copied downward) (fun _ => []) count
      (fun k hk => step_copied hrunning hat hspares hk) hstays hpos
  refine ⟨hleaves, fun k hk hlt => ?_, ?_⟩
  · have hleft : r.word .bc - UInt16.ofNat k ≠ 0 := fun hzero =>
      Nat.ne_of_lt hlt ((sub_ofNat_eq_zero_iff hk (Nat.le_of_lt hlt)).1 hzero)
    rw [hbetween k hk hlt]
    exact ⟨rfl, bne_iff_ne.2 hleft⟩
  · have hleft : r.word .bc - UInt16.ofNat count = 0 :=
      (sub_ofNat_eq_zero_iff (rounds_pos _) (Nat.le_refl _)).2 rfl
    rw [hbehind]
    simp only [copied, Registers.copied, goTo]
    rw [hleft]
    rfl

/-- A byte that is copied on to its neighbour again and again fills the range. -/
theorem stepped_copy_fill :
    ∃ m : Machine Memory,
      m.memory = (Memory.blank.load 0 [0xED, 0xB0]).load 16 [0x2A] ∧ m.registers.word .hl = 16 ∧
        m.registers.word .de = 17 ∧ m.registers.word .bc = 3 ∧ m.Leaves 3 (fun _ => []) ∧
        (m.stepped 3).registers.word .hl = 19 ∧ (m.stepped 3).registers.word .de = 20 ∧
        (m.stepped 3).memory.slice 16 5 = [0x2A, 0x2A, 0x2A, 0x2A, 0x00] := by
  have hat : ((start ((Memory.blank.load 0 [0xED, 0xB0]).load 16 [0x2A]) {}).mapRegisters fun r =>
      ((r.setWord .hl 16).setWord .de 17).setWord .bc 3).IsAtBlock .copy false := by
    constructor <;> decide +kernel
  have hspares : ((start ((Memory.blank.load 0 [0xED, 0xB0]).load 16 [0x2A]) {}).mapRegisters
      fun r => ((r.setWord .hl 16).setWord .de 17).setWord .bc 3).SparesItself false := by
    unfold SparesItself
    decide +kernel
  obtain ⟨hleaves, -, hbehind⟩ := stepped_copy _ false rfl hat hspares
  refine ⟨_, rfl, by decide, by decide, by decide, hleaves, ?_⟩
  refine ⟨(congrArg (·.registers.word .hl) hbehind).trans ?_,
    (congrArg (·.registers.word .de) hbehind).trans ?_,
    (congrArg (·.memory.slice 16 5) hbehind).trans ?_⟩ <;> decide +kernel

/-- A machine that is halted in front of a copy stays where it is. -/
theorem stepped_copy_halted :
    ∃ m : Machine Memory,
      m = ((start (Memory.blank.load 0 [0x76, 0xED, 0xB0]) {}).mapRegisters
          (·.setWord .bc 1)).step.1 ∧
        m.IsAtBlock .copy false ∧ m.SparesItself false ∧ rounds (m.registers.word .bc) = 1 ∧
        (m.stepped 1).registers.pc = m.registers.pc ∧ (m.stepped 1).registers.word .bc = 1 := by
  refine ⟨_, rfl, ⟨by decide +kernel, by decide +kernel⟩, ?_, by decide +kernel, by decide +kernel,
    by decide +kernel⟩
  unfold SparesItself
  decide +kernel

end Machine

end Z80
