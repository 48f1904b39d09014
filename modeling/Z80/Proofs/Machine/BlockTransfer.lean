import Z80.Proofs.Machine.Rounds

/-!
# Transfers between memory and a port

`otir` and `otdr` write as many bytes to a port as `b` says, 256 if it is zero, one behind the other
from where `hl` points to on; `inir` and `indr` read as many bytes from one.  The port is the one
that `c` selects.  Counting `b` down leaves `c` alone, so all bytes go through the same port.

## Main definitions

* `Z80.byteRounds` — the number of rounds that a count in a byte register asks for.
* `Z80.Board.outputAll` — a board behind bytes that are written to a port one behind the other.
* `Z80.Memory.filled` — memory with the same byte in a row of cells.
* `Z80.Registers.transferred`, `Z80.Machine.sent`, `Z80.Machine.received` — registers and machine
  behind a number of rounds of a transfer.

## Main results

* `Z80.Machine.blockStep_output`, `Z80.Machine.blockStep_input` — one round transfers one byte.
* `Z80.Machine.stepped_of_transfer` — rounds one behind the other, up to the last one that `b` asks
  for.
* `Z80.Machine.stepped_transfer` — the instructions transfer all bytes.
-/

namespace Z80

/-! ### Counts -/

/-- The number of rounds that a count asks for: zero asks for as many as there are bytes. -/
def byteRounds (count : UInt8) : Nat :=
  if count = 0 then 256 else count.toNat

lemma byteRounds_pos (count : UInt8) : 0 < byteRounds count := by
  unfold byteRounds
  split
  · decide
  · next h => exact Nat.pos_of_ne_zero fun hzero => h (UInt8.toNat_inj.1 hzero)

/-- A byte is counted down one by one. -/
lemma sub_byte_succ (count : UInt8) (k : Nat) :
    count - UInt8.ofNat (k + 1) = count - UInt8.ofNat k - 1 := by
  rw [UInt8.ofNat_add]
  grind

/-- A byte has been counted down to zero behind the last round that it asks for, and behind no
other. -/
lemma sub_byte_eq_zero_iff {count : UInt8} {k : Nat} (hpos : 0 < k) (hle : k ≤ byteRounds count) :
    count - UInt8.ofNat k = 0 ↔ k = byteRounds count := by
  have hlt := count.toNat_lt
  rw [← UInt8.toNat_inj, UInt8.toNat_sub, UInt8.toNat_ofNat']
  unfold byteRounds at hle ⊢
  split at hle
  · next h =>
    subst h
    simp
    omega
  · next h =>
    simp [h]
    omega

/-! ### Boards and memory -/

/-- The board behind bytes that are written to a port one behind the other, and what it reports,
given the interrupt register and memory. -/
def Board.outputAll (board : Board) (port i : UInt8) (readWord : UInt16 → UInt16)
    (bytes : List UInt8) : Board × List Event :=
  bytes.foldl (fun done v =>
    let (board, event) := done.1.output port v i readWord
    (board, done.2 ++ event.toList)) (board, [])

/-- One more byte is written to the board behind the others. -/
lemma Board.outputAll_concat (board : Board) (port i : UInt8) (readWord : UInt16 → UInt16)
    (bytes : List UInt8) (v : UInt8) :
    board.outputAll port i readWord (bytes ++ [v]) =
      let done := board.outputAll port i readWord bytes
      let last := done.1.output port v i readWord
      (last.1, done.2 ++ last.2.toList) := by
  rw [outputAll, List.foldl_concat]
  rfl

/-- Memory with the same byte in a number of cells from an address on, up or down. -/
def Memory.filled (memory : Memory) (downward : Bool) (address : UInt16) (v : UInt8) :
    (count : Nat) → Memory
  | 0 => memory
  | count + 1 =>
    (memory.filled downward address v count).write (Machine.movedBy downward address count) v

/-- The byte is in the cells of the row, and all others stay. -/
lemma Memory.read_filled (memory : Memory) (downward : Bool) (address : UInt16) (v : UInt8)
    (count : Nat) (a : UInt16) :
    (memory.filled downward address v count).read a =
      if ∃ k < count, Machine.movedBy downward address k = a then v else memory.read a := by
  induction count with
  | zero => simp [filled]
  | succ count ih =>
    rw [filled, read_write, ih]
    simp only [Nat.exists_lt_succ_right]
    by_cases hlast : Machine.movedBy downward address count = a <;> simp [hlast]

/-! ### Registers -/

namespace Registers

/-- The registers with an address in `hl` and a count in `b`, with the flags that say so, and with
the refresh register moved on. -/
def counted (r : Registers) (address : UInt16) (left : UInt8) (turns : Nat) : Registers :=
  { ((r.setWord .hl address).setByte .b left).setFlags
      { r.flags with zero := left = 0, subtract := true } with
    r := refreshBy r.r turns }

lemma word_hl_counted (r : Registers) (address : UInt16) (left : UInt8) (turns : Nat) :
    (r.counted address left turns).word .hl = address :=
  wordOf_bytes address

lemma counted_counted (r : Registers) (address address' : UInt16) (left left' : UInt8)
    (turns turns' : Nat) :
    (r.counted address left turns).counted address' left' turns' =
      r.counted address' left' (turns + turns') := by
  rw [counted, counted, counted, ← refreshBy_add]
  rfl

/-- The registers behind a number of rounds of a transfer; the program counter is that of the
instruction. -/
def transferred (r : Registers) (downward : Bool) : (count : Nat) → Registers
  | 0 => r
  | count + 1 =>
    r.counted (Machine.movedBy downward (r.word .hl) (count + 1))
      (r.main.b - UInt8.ofNat (count + 1)) (2 * (count + 1))

lemma word_hl_transferred (r : Registers) (downward : Bool) (count : Nat) :
    (r.transferred downward count).word .hl = Machine.movedBy downward (r.word .hl) count := by
  cases count with
  | zero => simp [transferred]
  | succ count => exact r.word_hl_counted _ _ _

lemma b_transferred (r : Registers) (downward : Bool) (count : Nat) :
    (r.transferred downward count).main.b = r.main.b - UInt8.ofNat count := by
  cases count with
  | zero => simp [transferred]
  | succ count => rfl

/-- The other registers stay, the one that selects the port among them. -/
lemma transferred_same (r : Registers) (downward : Bool) (count : Nat) :
    (r.transferred downward count).main.c = r.main.c ∧
      (r.transferred downward count).i = r.i ∧ (r.transferred downward count).pc = r.pc := by
  cases count <;> exact ⟨rfl, rfl, rfl⟩

/-- A transfer goes on from where it has come to. -/
lemma transferred_succ (r : Registers) (downward : Bool) (count : Nat) :
    r.transferred downward (count + 1) =
      (r.transferred downward count).counted
        (Machine.moved downward ((r.transferred downward count).word .hl))
        ((r.transferred downward count).main.b - 1) 2 := by
  rw [word_hl_transferred, b_transferred, ← Machine.movedBy_succ, ← sub_byte_succ]
  cases count with
  | zero => rfl
  | succ count => rw [transferred, transferred, counted_counted, Nat.mul_succ 2 (count + 1)]

end Registers

namespace Machine

/-! ### Writing to a port -/

section Output

variable {M : Type} [Bus M]

/-- The bytes that a transfer from memory writes in its first rounds. -/
def bytesAhead (m : Machine M) (downward : Bool) (count : Nat) : List UInt8 :=
  (List.range count).map fun k => m.read (movedBy downward (m.registers.word .hl) k)

/-- The board behind the first rounds of a transfer from memory, and what it reports. -/
def boardAhead (m : Machine M) (downward : Bool) (count : Nat) : Board × List Event :=
  m.board.outputAll m.registers.main.c m.registers.i m.readWord (m.bytesAhead downward count)

/-- The machine behind a number of rounds of a transfer from memory, in front of the instruction. -/
def sent (m : Machine M) (downward : Bool) (count : Nat) : Machine M :=
  ⟨m.registers.transferred downward count, m.memory, (m.boardAhead downward count).1, m.isHalted⟩

/-- What the board reports of one round of a transfer from memory. -/
def sentEvents (m : Machine M) (downward : Bool) (k : Nat) : List Event :=
  ((m.sent downward k).board.output m.registers.main.c
    (m.read (movedBy downward (m.registers.word .hl) k)) m.registers.i m.readWord).2.toList

/-- The board behind one more round. -/
lemma boardAhead_succ (m : Machine M) (downward : Bool) (count : Nat) :
    m.boardAhead downward (count + 1) =
      let last := (m.sent downward count).board.output m.registers.main.c
        (m.read (movedBy downward (m.registers.word .hl) count)) m.registers.i m.readWord
      (last.1, (m.boardAhead downward count).2 ++ last.2.toList) := by
  rw [boardAhead, bytesAhead, List.range_succ, List.map_append, List.map_singleton,
    Board.outputAll_concat]
  rfl

/-- All that the board reports. -/
lemma flatMap_sentEvents (m : Machine M) (downward : Bool) (count : Nat) :
    (List.range count).flatMap (m.sentEvents downward) = (m.boardAhead downward count).2 := by
  induction count with
  | zero => rfl
  | succ count ih =>
    rw [List.range_succ, List.flatMap_append, ih, boardAhead_succ, List.flatMap_singleton]
    rfl

/-- One round of an instruction that writes to a port. -/
lemma blockStep_output (m : Machine M) (downward : Bool) :
    (m.refreshed .misc).blockStep .output downward =
      let left := m.registers.main.b - 1
      let written := m.board.output m.registers.main.c (m.read (m.registers.word .hl))
        m.registers.i m.readWord
      (⟨m.registers.counted (moved downward (m.registers.word .hl)) left 2, m.memory, written.1,
        m.isHalted⟩, left != 0, written.2.toList) := by
  have hr : m.registers.refresh 2 = { m.registers with r := refreshBy m.registers.r 2 } :=
    m.registers.refresh_eq (.inr rfl)
  simp only [blockStep, refreshed, Space.refreshCount, mapRegisters, hr]
  rfl

/-- **One more round of a transfer from memory writes one more byte to the port.** -/
theorem blockStep_sent (m : Machine M) (downward : Bool) (k : Nat) :
    ((m.sent downward k).refreshed .misc).blockStep .output downward =
      (m.sent downward (k + 1), m.registers.main.b - UInt8.ofNat (k + 1) != 0,
        m.sentEvents downward k) := by
  obtain ⟨hc, hi, -⟩ := m.registers.transferred_same downward k
  rw [blockStep_output]
  simp only [sent, sentEvents, boardAhead_succ, Registers.transferred_succ, hc, hi,
    Registers.word_hl_transferred, Registers.b_transferred, ← sub_byte_succ]
  rfl

end Output

/-! ### Reading from a port -/

/-- The byte that a transfer to memory reads in each of its rounds. -/
def incoming {M : Type} (m : Machine M) : UInt8 :=
  m.board.ports.read m.registers.main.c

/-- The machine behind a number of rounds of a transfer to memory, in front of the instruction. -/
def received (m : Machine Memory) (downward : Bool) (count : Nat) : Machine Memory :=
  ⟨m.registers.transferred downward count,
    m.memory.filled downward (m.registers.word .hl) m.incoming count, m.board, m.isHalted⟩

/-- What the board reports of one round of a transfer to memory. -/
def receivedEvents {M : Type} (m : Machine M) : List Event :=
  if m.registers.main.c = m.board.config.storage then [.storageRead m.registers.main.c] else []

/-- One round of an instruction that reads from a port. -/
lemma blockStep_input (m : Machine Memory) (downward : Bool) :
    (m.refreshed .misc).blockStep .input downward =
      let left := m.registers.main.b - 1
      (⟨m.registers.counted (moved downward (m.registers.word .hl)) left 2,
        m.memory.write (m.registers.word .hl) m.incoming, m.board, m.isHalted⟩, left != 0,
        m.receivedEvents) := by
  have hr : m.registers.refresh 2 = { m.registers with r := refreshBy m.registers.r 2 } :=
    m.registers.refresh_eq (.inr rfl)
  have hevents : (m.board.input m.registers.main.c).2.toList = m.receivedEvents := by
    unfold Board.input receivedEvents
    split <;> rfl
  rw [← hevents]
  simp only [blockStep, refreshed, Space.refreshCount, mapRegisters, hr]
  rfl

/-- **One more round of a transfer to memory fills one more cell.** -/
theorem blockStep_received (m : Machine Memory) (downward : Bool) (k : Nat) :
    ((m.received downward k).refreshed .misc).blockStep .input downward =
      (m.received downward (k + 1), m.registers.main.b - UInt8.ofNat (k + 1) != 0,
        m.receivedEvents) := by
  obtain ⟨hc, -, -⟩ := m.registers.transferred_same downward k
  rw [blockStep_input]
  simp only [received, incoming, receivedEvents, Memory.filled, Registers.transferred_succ, hc,
    Registers.word_hl_transferred, Registers.b_transferred, ← sub_byte_succ]

/-! ### All rounds -/

section Rounds

variable {M : Type} [Bus M]

/-- **The rounds of a transfer, one behind the other.**  As long as the instruction stays in memory,
there are as many as `b` asks for.

**Proof sketch.** Each round leaves the machine where the next one begins, and counts `b` down by
one.  It comes to zero behind the last round that it asks for and not before. -/
theorem stepped_of_transfer {m : Machine M} {kind : BlockKind} {downward : Bool}
    (behind : Nat → Machine M) {events : Nat → List Event} (hrunning : m.isHalted = false)
    (hzero : behind 0 = m)
    (hregisters : ∀ k, (behind k).registers = m.registers.transferred downward k)
    (hhalted : ∀ k, (behind k).isHalted = m.isHalted)
    (hat : ∀ k < byteRounds m.registers.main.b, (behind k).IsAtBlock kind downward)
    (hround : ∀ k, ((behind k).refreshed .misc).blockStep kind downward =
      (behind (k + 1), m.registers.main.b - UInt8.ofNat (k + 1) != 0, events k)) :
    let count := byteRounds m.registers.main.b
    m.Leaves count events ∧ m.stepped count = (behind count).goTo (m.registers.pc + 2) false := by
  intro count
  have hpc : ∀ k, (behind k).registers.pc = m.registers.pc := by
    intro k
    rw [hregisters]
    exact (m.registers.transferred_same downward k).2.2
  have hstays : ∀ k, (behind k).goTo m.registers.pc false = behind k := by
    intro k
    rw [← hpc k, ← hrunning, ← hhalted k]
    rfl
  have hsteps : ∀ k < count, (if k = 0 then m else behind k).step =
      let next := if k + 1 = count then m.registers.pc + 2 else m.registers.pc
      ((behind (k + 1)).goTo next false,
        .ok ⟨m.registers.pc, next, .running, events k⟩) := by
    intro k hk
    have hnow : (if k = 0 then m else behind k) = behind k := by
      split
      · next h => rw [h, hzero]
      · rfl
    have hlast := sub_byte_eq_zero_iff (Nat.succ_pos k) hk
    have hnext : (if (m.registers.main.b - UInt8.ofNat (k + 1) != 0) = true then m.registers.pc
        else m.registers.pc + 2) =
          if k + 1 = count then m.registers.pc + 2 else m.registers.pc := by
      by_cases hcount : k + 1 = count
      · rw [if_pos hcount, hlast.2 hcount]
        rfl
      · rw [if_neg hcount, if_pos (bne_iff_ne.2 fun h => hcount (hlast.1 h))]
    rw [hnow, step_block ((hhalted k).trans hrunning) (hat k hk), hround, hpc]
    simp only [hnext]
  obtain ⟨hleaves, -, hbehind⟩ := stepped_of_rounds hsteps hstays (byteRounds_pos _)
  exact ⟨hleaves, hbehind⟩

end Rounds

/-- The registers behind the last round that `b` asks for. -/
lemma goTo_transferred (r : Registers) (downward : Bool) :
    let count := byteRounds r.main.b
    { r.transferred downward count with pc := r.pc + 2 } =
      { (r.setWord .hl (movedBy downward (r.word .hl) count)).setByte .b 0 with
        main.flags := { r.flags with zero := true, subtract := true }
        pc := r.pc + 2
        r := refreshBy r.r (2 * count) } := by
  intro count
  have hleft : r.main.b - UInt8.ofNat count = 0 :=
    (sub_byte_eq_zero_iff (byteRounds_pos _) (Nat.le_refl _)).2 rfl
  obtain ⟨k, hk⟩ := Nat.exists_eq_succ_of_ne_zero (Nat.ne_of_gt (byteRounds_pos r.main.b))
  rw [show count = k + 1 from hk] at hleft ⊢
  rw [Registers.transferred, hleft]
  rfl

/-- **Transfers move exactly as many bytes as `b` says**, 256 if it is zero.  An instruction that
writes to a port needs that many steps; the board and all that it reports are those of the bytes
from where `hl` points to on, written one behind the other to the port that `c` selects, and memory
is as it was.  An instruction that reads from a port needs as many, if none of the cells that it
fills is one of its own two bytes; each cell then holds the byte in the latch of that port, no latch
has changed, and each step reports that a byte was asked for exactly if the port is the one of the
storage device.  Behind either of them `b` is zero, `hl` has moved by the number of bytes, the flags
of zero and subtraction are set, and nothing else has changed but the refresh register.

**Proof sketch.** Each round transfers one byte and leaves `c` alone.  The count comes down to zero
behind the last byte and not before; up to there every step finds the instruction again. -/
theorem stepped_transfer (m : Machine Memory) (downward : Bool) (hrunning : m.isHalted = false) :
    let r := m.registers
    let count := byteRounds r.main.b
    let cell := movedBy downward (r.word .hl)
    let registers : Registers :=
      { (r.setWord .hl (cell count)).setByte .b 0 with
        main.flags := { r.flags with zero := true, subtract := true }
        pc := r.pc + 2
        r := refreshBy r.r (2 * count) }
    (m.IsAtBlock .output downward →
      let bytes := (List.range count).map fun k => m.read (cell k)
      let written := m.board.outputAll r.main.c r.i m.readWord bytes
      ∃ events, m.Leaves count events ∧ (List.range count).flatMap events = written.2 ∧
        m.stepped count = ⟨registers, m.memory, written.1, false⟩) ∧
    (m.IsAtBlock .input downward → (∀ k < count, cell k ≠ r.pc ∧ cell k ≠ r.pc + 1) →
      ∃ memory, m.stepped count = ⟨registers, memory, m.board, false⟩ ∧
        (∀ address, memory.read address =
          if ∃ k < count, cell k = address then m.board.ports.read r.main.c
          else m.read address) ∧
        m.Leaves count fun _ =>
          if r.main.c = m.board.config.storage then [.storageRead r.main.c] else []) := by
  intro r count cell registers
  have hregisters := goTo_transferred r downward
  constructor
  · intro hat bytes written
    have hstays : ∀ k < count, (m.sent downward k).IsAtBlock .output downward := by
      intro k _
      rw [IsAtBlock, sent, (r.transferred_same downward k).2.2]
      exact hat
    obtain ⟨hleaves, hbehind⟩ := stepped_of_transfer (m.sent downward) hrunning rfl
      (fun _ => rfl) (fun _ => rfl) hstays (m.blockStep_sent downward)
    refine ⟨m.sentEvents downward, hleaves, m.flatMap_sentEvents downward count, ?_⟩
    rw [hbehind, sent, goTo, hregisters]
    rfl
  · intro hat hspares
    have hstays : ∀ k < count, (m.received downward k).IsAtBlock .input downward := by
      intro k hk
      rw [IsAtBlock, received, (r.transferred_same downward k).2.2]
      constructor
      · refine (m.memory.read_filled downward _ _ k _).trans ((if_neg ?_).trans hat.1)
        rintro ⟨j, hj, hcell⟩
        exact (hspares j (by omega)).1 hcell
      · refine (m.memory.read_filled downward _ _ k _).trans ((if_neg ?_).trans hat.2)
        rintro ⟨j, hj, hcell⟩
        exact (hspares j (by omega)).2 hcell
    obtain ⟨hleaves, hbehind⟩ := stepped_of_transfer (m.received downward) hrunning rfl
      (fun _ => rfl) (fun _ => rfl) hstays (m.blockStep_received downward)
    refine ⟨_, ?_, m.memory.read_filled downward (r.word .hl) m.incoming count, hleaves⟩
    rw [hbehind, received, goTo, hregisters]

/-- Two bytes that are written downward tell the serial controller a vector, and 256 bytes are asked
for at the port of the storage device. -/
theorem stepped_transfer_devices :
    (∃ m : Machine Memory,
      m.memory = (Memory.blank.load 0 [0xED, 0xBB]).load 16 [0x40, 0x02] ∧
        m.registers.word .hl = 17 ∧ m.registers.main.b = 2 ∧ m.registers.main.c = 0x82 ∧
        (∃ events, m.Leaves 2 events ∧
          (List.range 2).flatMap events = [.sioVector 0x40 0x0040 0]) ∧
        (m.stepped 2).registers.word .hl = 15 ∧ (m.stepped 2).board.ports.read 0x82 = 0x40) ∧
    ∃ m : Machine Memory,
      m.memory = Memory.blank.load 0 [0xED, 0xB2] ∧ m.registers.word .hl = 0x20 ∧
        m.registers.main.b = 0 ∧ m.registers.main.c = 0x10 ∧ m.board.ports.read 0x10 = 0x2A ∧
        m.Leaves 256 (fun _ => [.storageRead 0x10]) ∧ (m.stepped 256).read 0x11F = 0x2A ∧
        (m.stepped 256).read 0x120 = 0 := by
  constructor
  · obtain ⟨m, hmemory, hrunning, hhl, hb, hc, hat, hevents, hlatch⟩ :
        ∃ m : Machine Memory,
          let written := m.board.outputAll m.registers.main.c m.registers.i m.readWord
            ((List.range (byteRounds m.registers.main.b)).map fun k =>
              m.read (movedBy true (m.registers.word .hl) k))
          m.memory = (Memory.blank.load 0 [0xED, 0xBB]).load 16 [0x40, 0x02] ∧
            m.isHalted = false ∧ m.registers.word .hl = 17 ∧ m.registers.main.b = 2 ∧
            m.registers.main.c = 0x82 ∧
            (m.read m.registers.pc = 0xED ∧ m.read (m.registers.pc + 1) = 0xBB) ∧
            written.2 = [.sioVector 0x40 0x0040 0] ∧ written.1.ports.read 0x82 = 0x40 :=
      ⟨(start ((Memory.blank.load 0 [0xED, 0xBB]).load 16 [0x40, 0x02]) {}).mapRegisters
        fun r => (r.setWord .hl 17).setWord .bc 0x0282, rfl, by decide +kernel⟩
    obtain ⟨events, hleaves, hsent, hbehind⟩ := (stepped_transfer m true hrunning).1 hat
    have hcount : byteRounds m.registers.main.b = 2 := by
      rw [hb]
      rfl
    have hend : movedBy true (m.registers.word .hl) 2 = 15 := by
      rw [hhl]
      rfl
    rw [hcount] at hleaves hbehind
    rw [hevents, hcount] at hsent
    refine ⟨m, hmemory, hhl, hb, hc, ⟨events, hleaves, hsent⟩, ?_, ?_⟩
    · rw [hbehind, ← hend]
      exact wordOf_bytes _
    · rw [hbehind, ← hcount]
      exact hlatch
  · obtain ⟨m, hmemory, hrunning, hhl, hb, hc, hlatch, hat, hspares, hstorage, hbeyond⟩ :
        ∃ m : Machine Memory,
          m.memory = Memory.blank.load 0 [0xED, 0xB2] ∧ m.isHalted = false ∧
            m.registers.word .hl = 0x20 ∧ m.registers.main.b = 0 ∧ m.registers.main.c = 0x10 ∧
            m.board.ports.read 0x10 = 0x2A ∧
            (m.read m.registers.pc = 0xED ∧ m.read (m.registers.pc + 1) = 0xB2) ∧
            (∀ k < byteRounds m.registers.main.b,
              movedBy false (m.registers.word .hl) k ≠ m.registers.pc ∧
                movedBy false (m.registers.word .hl) k ≠ m.registers.pc + 1) ∧
            m.board.config.storage = 0x10 ∧ m.read 0x120 = 0 :=
      ⟨⟨((Registers.zero.setWord .hl 0x20).setWord .bc 0x0010), Memory.blank.load 0 [0xED, 0xB2],
        (Board.start {}).latch 0x10 0x2A, false⟩, rfl, by decide +kernel⟩
    obtain ⟨memory, hbehind, hread, hleaves⟩ := (stepped_transfer m false hrunning).2 hat hspares
    have hcount : byteRounds m.registers.main.b = 256 := by
      rw [hb]
      rfl
    rw [hcount] at hbehind hread hleaves
    rw [hhl, hc, hlatch] at hread
    rw [hc, hstorage, if_pos rfl] at hleaves
    refine ⟨m, hmemory, hhl, hb, hc, hlatch, hleaves, ?_, ?_⟩
    · rw [hbehind]
      exact (hread 0x11F).trans (if_pos (by decide +kernel))
    · rw [hbehind]
      exact (hread 0x120).trans ((if_neg (by decide +kernel)).trans hbeyond)

/-- A machine that is halted in front of a transfer stays where it is. -/
theorem stepped_transfer_halted :
    ∃ m : Machine Memory,
      m = ((start ((Memory.blank.load 0 [0x76, 0xED, 0xB3]).load 16 [0x2A]) {}).mapRegisters
          fun r => (r.setWord .hl 16).setWord .bc 0x0120).step.1 ∧
        m.IsAtBlock .output false ∧ byteRounds m.registers.main.b = 1 ∧
        (m.stepped 1).registers.pc = m.registers.pc ∧ (m.stepped 1).registers.main.b = 1 ∧
        (m.stepped 1).board.ports.read 0x20 = 0 := by
  exact ⟨_, rfl, ⟨by decide +kernel, by decide +kernel⟩, by decide +kernel, by decide +kernel,
    by decide +kernel, by decide +kernel⟩

end Machine

end Z80
