import Z80.Proofs.Machine.Rounds

/-!
# Searches

`cpir` and `cpdr` compare the accumulator with as many bytes as `bc` says, 65536 if it is zero, from
where `hl` points to on.  They stop behind the first byte that is equal to it.

## Main definitions

* `Z80.Registers.searched`, `Z80.Machine.searched` — registers and machine behind a number of rounds
  of a search.
* `Z80.Machine.StopsAt` — whether a search is over behind a number of rounds.

## Main results

* `Z80.Machine.step_search` — a step over the instruction compares one byte.
* `Z80.Machine.stepped_searched` — the state that a search leaves.
* `Z80.Machine.stepped_search` — the instruction finds the first byte equal to the accumulator.
-/

namespace Z80

namespace Registers

/-- The registers behind a number of rounds of a search, given the byte that was compared last; the
program counter is that of the instruction. -/
def searched (r : Registers) (downward : Bool) (count : Nat) (last : UInt8) : Registers :=
  let left := r.word .bc - UInt16.ofNat count
  { ((r.setWord .hl (Machine.movedBy downward (r.word .hl) count)).setWord .bc left).setFlags
      { (sub8 r.main.a last false).2 with carry := r.flags.carry, parity := left != 0 } with
    r := refreshBy r.r (2 * count) }

lemma word_hl_searched (r : Registers) (downward : Bool) (count : Nat) (last : UInt8) :
    (r.searched downward count last).word .hl = Machine.movedBy downward (r.word .hl) count :=
  wordOf_bytes _

lemma word_bc_searched (r : Registers) (downward : Bool) (count : Nat) (last : UInt8) :
    (r.searched downward count last).word .bc = r.word .bc - UInt16.ofNat count :=
  wordOf_bytes _

/-- One round of a search. -/
lemma searched_one (r : Registers) (downward : Bool) (last : UInt8) :
    r.searched downward 1 last =
      { ((r.setWord .hl (Machine.moved downward (r.word .hl))).setWord .bc
          (r.word .bc - 1)).setFlags
          { (sub8 r.main.a last false).2 with
            carry := r.flags.carry, parity := r.word .bc - 1 != 0 } with
        r := refreshBy r.r 2 } := by
  simp only [searched, Machine.movedBy_one]
  rfl

/-- A search goes on from where it has come to. -/
lemma searched_succ (r : Registers) (downward : Bool) (count : Nat) (last next : UInt8) :
    r.searched downward (count + 1) next =
      (r.searched downward count last).searched downward 1 next := by
  have hleft := sub_ofNat_succ (r.word .bc) count
  have hr : refreshBy r.r (2 * (count + 1)) = refreshBy (refreshBy r.r (2 * count)) 2 :=
    (refreshBy_add r.r (2 * count) 2).symm
  rw [searched_one, word_hl_searched, word_bc_searched, ← hleft, ← Machine.movedBy_succ]
  simp only [searched, hr]
  rfl

end Registers

/-- Bytes are equal if their difference is zero. -/
lemma zero_sub8 (a v : UInt8) : (sub8 a v false).2.zero = decide (v = a) := by
  have hdifference : a - v = 0 ↔ v = a := by grind
  simp [sub8, hdifference]

namespace Machine

variable {M : Type} [Bus M]

/-- The byte that a search compares in one of its rounds. -/
def compared (m : Machine M) (downward : Bool) (k : Nat) : UInt8 :=
  m.read (movedBy downward (m.registers.word .hl) k)

/-- The machine behind a number of rounds of a search, in front of the instruction. -/
def searched (m : Machine M) (downward : Bool) (count : Nat) : Machine M :=
  m.mapRegisters (·.searched downward count (m.compared downward (count - 1)))

/-- The next round of a search compares the next byte. -/
lemma compared_searched (m : Machine M) (downward : Bool) (count : Nat) :
    (m.searched downward count).compared downward 0 = m.compared downward count := by
  simp only [compared, searched, mapRegisters, Registers.word_hl_searched, movedBy_zero]
  rfl

lemma searched_succ (m : Machine M) (downward : Bool) (count : Nat) :
    m.searched downward (count + 1) = (m.searched downward count).searched downward 1 := by
  have hregisters := m.registers.searched_succ downward count (m.compared downward (count - 1))
    (m.compared downward count)
  rw [searched, searched, Nat.sub_self, compared_searched]
  simp only [searched, mapRegisters, Nat.add_sub_cancel, hregisters]

/-- One round of the instruction compares one byte. -/
lemma blockStep_compare (m : Machine M) (downward : Bool) :
    (m.refreshed .misc).blockStep .compare downward =
      (m.searched downward 1,
        m.registers.word .bc - 1 != 0 && m.compared downward 0 != m.registers.main.a, []) := by
  have hr : m.registers.refresh 2 = { m.registers with r := refreshBy m.registers.r 2 } :=
    m.registers.refresh_eq (.inr rfl)
  have hread : m.compared downward 0 = m.read (m.registers.word .hl) := by simp [compared]
  have hzero : (!(sub8 m.registers.main.a (m.compared downward 0) false).2.zero) =
      (m.compared downward 0 != m.registers.main.a) := by
    rw [zero_sub8]
    rfl
  rw [← hzero]
  simp only [blockStep, refreshed, Space.refreshCount, mapRegisters, hr, searched, Nat.sub_self,
    Registers.searched_one, hread]
  rfl

/-- **A step over the instruction compares one byte**; it is the last one if nothing is left or the
byte is equal to the accumulator. -/
theorem step_search {m : Machine M} {downward : Bool} (hrunning : m.isHalted = false)
    (h : m.IsAtBlock .compare downward) :
    m.step =
      let next :=
        if m.registers.word .bc - 1 = 0 ∨ m.compared downward 0 = m.registers.main.a then
          m.registers.pc + 2
        else m.registers.pc
      ((m.searched downward 1).goTo next false, .ok ⟨m.registers.pc, next, .running, []⟩) := by
  rw [step_block hrunning h, blockStep_compare]
  by_cases hleft : m.registers.word .bc - 1 = 0 <;>
    by_cases hequal : m.compared downward 0 = m.registers.main.a <;> simp [hleft, hequal]

/-! ### The whole search -/

/-- Whether a search is over behind a number of rounds and not before: the last one has used up the
count or found the accumulator. -/
structure StopsAt (m : Machine M) (downward : Bool) (count : Nat) : Prop where
  pos : 0 < count
  le : count ≤ rounds (m.registers.word .bc)
  differs : ∀ k, k + 1 < count → m.compared downward k ≠ m.registers.main.a
  last : count = rounds (m.registers.word .bc) ∨
    m.compared downward (count - 1) = m.registers.main.a

/-- The round behind which a search is over is the one that uses up the count or finds the
accumulator. -/
lemma StopsAt.isLast_iff {m : Machine M} {downward : Bool} {count k : Nat}
    (h : m.StopsAt downward count) (hk : k < count) :
    m.registers.word .bc - UInt16.ofNat (k + 1) = 0 ∨
      m.compared downward k = m.registers.main.a ↔ k + 1 = count := by
  rw [sub_ofNat_eq_zero_iff (Nat.succ_pos k) (Nat.le_trans hk h.le)]
  constructor
  · rintro (hrounds | hequal)
    · exact Nat.le_antisymm hk (Nat.le_trans h.le (Nat.le_of_eq hrounds.symm))
    · exact Nat.le_antisymm hk (Nat.le_of_not_lt fun hlt => h.differs k hlt hequal)
  · rintro rfl
    exact h.last

/-- A round of a search, among those up to the one that ends it. -/
lemma step_searched {m : Machine M} {downward : Bool} (hrunning : m.isHalted = false)
    (hat : m.IsAtBlock .compare downward) {count : Nat} (hstop : m.StopsAt downward count) {k : Nat}
    (hk : k < count) :
    (if k = 0 then m else m.searched downward k).step =
      let next := if k + 1 = count then m.registers.pc + 2 else m.registers.pc
      ((m.searched downward (k + 1)).goTo next false,
        .ok ⟨m.registers.pc, next, .running, []⟩) := by
  have hlast := hstop.isLast_iff hk
  split
  · next hzero =>
    subst hzero
    rw [step_search hrunning hat]
    simp only [← hlast]
    rfl
  · have hleft : (m.searched downward k).registers.word .bc - 1 =
        m.registers.word .bc - UInt16.ofNat (k + 1) := by
      rw [searched, mapRegisters, Registers.word_bc_searched, sub_ofNat_succ]
    rw [step_search (m := m.searched downward k) hrunning hat, hleft, compared_searched,
      ← searched_succ]
    simp only [← hlast]
    rfl

/-- The machine behind a search of a number of rounds that left a count, and found the accumulator
or not.  Sign and half carry are those of the last comparison. -/
def searchEnd (m : Machine M) (downward : Bool) (count : Nat) (left : UInt16) (found : Bool) :
    Machine M :=
  let r := m.registers
  let last := (sub8 r.main.a (m.compared downward (count - 1)) false).2
  { registers := { (r.setWord .hl (movedBy downward (r.word .hl) count)).setWord .bc left with
      main.flags := ⟨last.sign, found, last.half, left != 0, true, r.flags.carry⟩
      pc := r.pc + 2
      r := refreshBy r.r (2 * count) }
    memory := m.memory
    board := m.board
    isHalted := false }

/-- The steps of a search, up to the round that ends it. -/
lemma stepped_searched {m : Machine M} {downward : Bool} (hrunning : m.isHalted = false)
    (hat : m.IsAtBlock .compare downward) {count : Nat} (hstop : m.StopsAt downward count) :
    m.Leaves count (fun _ => []) ∧
      m.stepped count = m.searchEnd downward count (m.registers.word .bc - UInt16.ofNat count)
        (m.compared downward (count - 1) = m.registers.main.a) := by
  have hstays : ∀ k, (m.searched downward k).goTo m.registers.pc false = m.searched downward k := by
    intro k
    rw [searched, mapRegisters, goTo, hrunning]
    rfl
  obtain ⟨hleaves, -, hbehind⟩ :=
    @stepped_of_rounds _ _ m (m.searched downward) (fun _ => []) count
      (fun k hk => step_searched hrunning hat hstop hk) hstays hstop.pos
  refine ⟨hleaves, ?_⟩
  rw [hbehind, searchEnd, ← zero_sub8]
  rfl

/-- **A search finds the first byte that is equal to the accumulator.**  If there is one among the
bytes that `bc` asks for, the search is over behind it, with the zero flag set; else it is over
behind all of them, with the zero flag clear and nothing left of the count.  Memory and the
accumulator stay, and so do `de` and the carry flag.

**Proof sketch.** A step compares one byte and leaves everything else alone, so the rounds of the
machine are those of the bytes; the last is the one that finds the accumulator or uses up the
count. -/
theorem stepped_search (m : Machine M) (downward : Bool) (hrunning : m.isHalted = false)
    (hat : m.IsAtBlock .compare downward) :
    let r := m.registers
    let count := rounds (r.word .bc)
    (∀ k < count, m.compared downward k = r.main.a →
      (∀ j < k, m.compared downward j ≠ r.main.a) →
        m.Leaves (k + 1) (fun _ => []) ∧
          m.stepped (k + 1) =
            m.searchEnd downward (k + 1) (r.word .bc - UInt16.ofNat (k + 1)) true) ∧
      ((∀ k < count, m.compared downward k ≠ r.main.a) →
        m.Leaves count (fun _ => []) ∧
          m.stepped count = m.searchEnd downward count 0 false) := by
  intro r count
  constructor
  · intro k hk hequal hfirst
    have hstop : m.StopsAt downward (k + 1) :=
      ⟨Nat.succ_pos k, hk, fun j hj => hfirst j (Nat.lt_of_succ_lt_succ hj), .inr hequal⟩
    simpa [hequal, r] using stepped_searched hrunning hat hstop
  · intro hdiffers
    have hpos := rounds_pos (r.word .bc)
    have hstop : m.StopsAt downward count :=
      ⟨hpos, Nat.le_refl _, fun j hj => hdiffers j (Nat.lt_of_succ_lt hj), .inl rfl⟩
    have hleft : r.word .bc - UInt16.ofNat count = 0 :=
      (sub_ofNat_eq_zero_iff hpos (Nat.le_refl _)).2 rfl
    have hlast : m.compared downward (count - 1) ≠ r.main.a := hdiffers _ (by omega)
    simpa [hleft, hlast, r] using stepped_searched hrunning hat hstop

/-- The last byte that the count asks for is the one that is found: nothing is left. -/
theorem stepped_search_last :
    ∃ m : Machine Memory,
      m.memory = (Memory.blank.load 0 [0xED, 0xB9]).load 16 [0x2A, 0x07] ∧
        m.registers.main.a = 0x2A ∧ m.registers.word .hl = 17 ∧ m.registers.word .bc = 2 ∧
        m.Leaves 2 (fun _ => []) ∧ (m.stepped 2).registers.word .hl = 15 ∧
        (m.stepped 2).registers.word .bc = 0 ∧
        (m.stepped 2).registers.flags = ⟨false, true, false, false, true, false⟩ := by
  have hat : ((start ((Memory.blank.load 0 [0xED, 0xB9]).load 16 [0x2A, 0x07]) {}).mapRegisters
      fun r => ((r.setByte .a 0x2A).setWord .hl 17).setWord .bc 2).IsAtBlock .compare true := by
    constructor <;> decide +kernel
  obtain ⟨hleaves, hbehind⟩ := (stepped_search _ true rfl hat).1 1 (by decide) (by decide +kernel)
    (by decide +kernel)
  refine ⟨_, rfl, by decide, by decide, by decide, hleaves, ?_⟩
  refine ⟨(congrArg (·.registers.word .hl) hbehind).trans ?_,
    (congrArg (·.registers.word .bc) hbehind).trans ?_,
    (congrArg (·.registers.flags) hbehind).trans ?_⟩ <;> decide +kernel

/-- A machine that is halted in front of a search stays where it is. -/
theorem stepped_search_halted :
    ∃ m : Machine Memory,
      m = ((start (Memory.blank.load 0 [0x76, 0xED, 0xB1]) {}).mapRegisters
          (·.setWord .bc 1)).step.1 ∧
        m.IsAtBlock .compare false ∧ rounds (m.registers.word .bc) = 1 ∧
        m.compared false 0 ≠ m.registers.main.a ∧
        (m.stepped 1).registers.pc = m.registers.pc ∧ (m.stepped 1).registers.word .bc = 1 := by
  exact ⟨_, rfl, ⟨by decide +kernel, by decide +kernel⟩, by decide +kernel, by decide +kernel,
    by decide +kernel, by decide +kernel⟩

end Machine

end Z80
