import Z80.Machine.Interrupt
import Z80.Proofs.Machine.PortAccess

/-!
# Ports and events over a run

What the latches of the ports hold and what the board has reported behind any number of steps is
determined by the accesses of these steps.  A latch holds what was written to its port last; an
event is raised by an access to a reserved port, and that of an interrupt vector by the byte that
follows the selection of register 2 of the serial controller.

## Main definitions

* `Z80.PortAccess.writtenTo` — what accesses have written to a port.
* `Z80.Sio.registerBehind` — the register to which the next byte goes.
* `Z80.PortAccess.event?` — the event of an access.
* `Z80.Machine.Success`, `Z80.Machine.Trail` — steps that succeeded, one behind the other.

## Main results

* `Z80.Board.read_behind`, `Z80.Board.event_behind` — what one access does to a board.
* `Z80.Machine.Trail.read_ports`, `Z80.Machine.Trail.flatMap_events` — what all of them do.
* `Z80.Machine.port_contract` — ports and events over a run.
* `Z80.Machine.exists_trail_of_runFrom` — the steps of a run.

## Design

Between two steps of a trail the machine may change in any way that leaves its board alone.  So a
trail is that of a program, but also one that is interrupted, or whose memory is written by others.

The controller keeps no more of a register that was selected than whether it is the one of the
vector.  The theorems follow the number of the register instead.
-/

namespace Z80

/-! ### Histories -/

/-- The bytes that accesses have written to a port, in their order. -/
def PortAccess.writtenTo (port : UInt8) (accesses : List PortAccess) : List UInt8 :=
  accesses.filterMap fun access =>
    match access with
    | .read _ => none
    | .write q v => if q = port then some v else none

/-- A write is one to its own port only. -/
lemma PortAccess.writtenTo_write (port q v : UInt8) :
    writtenTo q [write port v] = if port = q then [v] else [] := by
  unfold writtenTo
  split <;> simp_all

namespace Sio

/-- The number of the register to which the next byte goes; 1 stands for all others than 0 and 2. -/
def register : Sio → UInt8
  | pointer => 0
  | vector => 2
  | data => 1

/-- The register to which the next byte goes behind some bytes: a byte for register 0 selects it by
its three lowest bits, and any other register takes one byte only. -/
def registerBehind (register : UInt8) (values : List UInt8) : UInt8 :=
  values.foldl (fun register v => if register = 0 then v &&& 0x07 else 0) register

/-- Whether the next byte goes to a register. -/
def Awaits (register : UInt8) : Sio → Prop
  | pointer => register = 0
  | vector => register = 2
  | data => register ≠ 0 ∧ register ≠ 2

/-- The next byte goes to the register whose number is kept. -/
lemma awaits_register (sio : Sio) : sio.Awaits sio.register := by
  cases sio with
  | data => exact ⟨by decide, by decide⟩
  | _ => rfl

/-- **A byte for the controller** is a vector if it goes to register 2, and it says where the next
one goes. -/
lemma write_spec {sio : Sio} {register : UInt8} (h : sio.Awaits register) (v : UInt8) :
    (sio.write v).1.Awaits (registerBehind register [v]) ∧
      (sio.write v).2 = if register = 2 then some v else none := by
  cases sio with
  | pointer =>
    obtain rfl : register = 0 := h
    refine ⟨?_, rfl⟩
    change (select v).Awaits (v &&& 0x07)
    simp only [select]
    split
    · next hzero => exact hzero
    · next hzero =>
      split
      · next htwo => exact htwo
      · next htwo => exact ⟨hzero, htwo⟩
  | vector =>
    obtain rfl : register = 2 := h
    exact ⟨rfl, rfl⟩
  | data =>
    obtain ⟨hzero, htwo⟩ := h
    simp [write, registerBehind, Awaits, hzero, htwo]

end Sio

/-- The event of an access, given the register to which a byte for the serial controller goes, the
interrupt register and memory. -/
def PortAccess.event? (config : Board.Config) (register i : UInt8) (readWord : UInt16 → UInt16) :
    PortAccess → Option Event
  | read port => if port = config.storage then some (.storageRead port) else none
  | write port v =>
    if port = config.storage then some (.storageWrite port v)
    else if port = config.sio then
      if register = 2 then
        let entry := UInt16.ofNat (i.toNat * 256 + v.toNat)
        some (.sioVector v entry (readWord entry))
      else none
    else if config.display.1 ≤ port ∧ port ≤ config.display.2 then some (.display port v)
    else none

namespace Board

/-- The address of a table entry: the interrupt register is its high byte. -/
lemma wordOf_eq (vector i : UInt8) :
    wordOf vector i = UInt16.ofNat (i.toNat * 256 + vector.toNat) := by
  rw [← toNat_wordOf, UInt16.ofNat_toNat]

/-- A byte in the latch of a port. -/
lemma read_latch (board : Board) (port q v : UInt8) :
    (board.latch port v).ports.read q = if port = q then v else board.ports.read q :=
  board.ports.read_write port q v

/-- What a write to a port does: the storage device and the serial controller come first. -/
lemma output_cases (board : Board) (port v i : UInt8) (readWord : UInt16 → UInt16) :
    (port = board.config.storage ∧
      board.output port v i readWord = (board, some (.storageWrite port v))) ∨
    (port ≠ board.config.storage ∧ port = board.config.sio ∧
      board.output port v i readWord =
        ({ board.latch port v with sio := (board.sio.write v).1 },
          (board.sio.write v).2.map fun vector => vectorEvent i vector readWord)) ∨
    port ≠ board.config.storage ∧ port ≠ board.config.sio ∧
      board.output port v i readWord =
        (board.latch port v,
          if board.config.isDisplay port then some (.display port v) else none) := by
  unfold output
  split
  · next hstorage => exact .inl ⟨hstorage, rfl⟩
  · next hstorage =>
    split
    · next hsio => exact .inr (.inl ⟨hstorage, hsio, rfl⟩)
    · next hsio =>
      refine .inr (.inr ⟨hstorage, hsio, ?_⟩)
      split <;> rfl

/-- An access leaves the reserved ports as they are. -/
lemma config_behind (board : Board) (i : UInt8) (readWord : UInt16 → UInt16)
    (access? : Option PortAccess) :
    (board.behind i readWord access?).1.config = board.config := by
  rcases access? with _ | port | ⟨port, v⟩
  · rfl
  · rfl
  · change (board.output port v i readWord).1.config = _
    rcases board.output_cases port v i readWord with ⟨-, h⟩ | ⟨-, -, h⟩ | ⟨-, -, h⟩
    all_goals exact congrArg (fun written => written.1.config) h

/-- **A byte that is written stands in the latch of its port**, unless that is the one of the
storage device. -/
theorem read_behind (board : Board) (i : UInt8) (readWord : UInt16 → UInt16)
    (access? : Option PortAccess) (port : UInt8) :
    (board.behind i readWord access?).1.ports.read port =
      if port = board.config.storage then board.ports.read port
      else (PortAccess.writtenTo port access?.toList).getLastD (board.ports.read port) := by
  rcases access? with _ | q | ⟨q, v⟩
  · exact (ite_self _).symm
  · exact (ite_self _).symm
  · -- what has been written to the latch
    have hlatch : q ≠ board.config.storage → (board.latch q v).ports.read port =
        if port = board.config.storage then board.ports.read port
        else (PortAccess.writtenTo port [.write q v]).getLastD (board.ports.read port) := by
      intro hq
      rw [read_latch, PortAccess.writtenTo_write]
      by_cases hport : q = port
      · rw [if_pos hport, if_pos hport, if_neg (hport ▸ hq)]
        rfl
      · rw [if_neg hport, if_neg hport]
        exact (ite_self _).symm
    change (board.output q v i readWord).1.ports.read port = _
    rcases board.output_cases q v i readWord with ⟨hq, h⟩ | ⟨hq, -, h⟩ | ⟨hq, -, h⟩
    · rw [h, Option.toList_some, PortAccess.writtenTo_write]
      by_cases hport : port = board.config.storage
      · rw [if_pos hport]
      · rw [if_neg hport, if_neg fun heq : q = port => hport (heq.symm.trans hq)]
        rfl
    · rw [h]
      exact hlatch hq
    · rw [h]
      exact hlatch hq

/-- The serial controller keeps to its port, if that is not the one of the storage device. -/
lemma sio_behind {board : Board} (hreserved : board.config.sio ≠ board.config.storage)
    {register : UInt8} (hsio : board.sio.Awaits register) (i : UInt8)
    (readWord : UInt16 → UInt16) (access? : Option PortAccess) :
    (board.behind i readWord access?).1.sio.Awaits
      (Sio.registerBehind register
        (PortAccess.writtenTo board.config.sio access?.toList)) := by
  rcases access? with _ | q | ⟨q, v⟩
  · exact hsio
  · exact hsio
  · change (board.output q v i readWord).1.sio.Awaits _
    rw [Option.toList_some, PortAccess.writtenTo_write]
    rcases board.output_cases q v i readWord with ⟨hq, h⟩ | ⟨-, hq, h⟩ | ⟨-, hq, h⟩
    · rw [h, if_neg fun heq => hreserved (heq.symm.trans hq)]
      exact hsio
    · rw [h, if_pos hq]
      exact (Sio.write_spec hsio v).1
    · rw [h, if_neg hq]
      exact hsio

/-- **An access raises its event**: the precedence of the reserved ports is that of the event. -/
theorem event_behind {board : Board} {register : UInt8}
    (hsio : board.config.sio ≠ board.config.storage → board.sio.Awaits register) (i : UInt8)
    (readWord : UInt16 → UInt16) (access? : Option PortAccess) :
    (board.behind i readWord access?).2 =
      access?.bind (PortAccess.event? board.config register i readWord) := by
  rcases access? with _ | q | ⟨q, v⟩
  · rfl
  · rfl
  · change (board.output q v i readWord).2 =
      PortAccess.event? board.config register i readWord (.write q v)
    rw [PortAccess.event?]
    rcases board.output_cases q v i readWord with ⟨hq, h⟩ | ⟨hq, hq', h⟩ | ⟨hq, hq', h⟩
    · rw [h, if_pos hq]
    · rw [h, if_neg hq, if_pos hq', (Sio.write_spec (hsio fun heq => hq (hq'.trans heq)) v).2]
      split
      · simp only [Option.map_some, vectorEvent, wordOf_eq]
      · rfl
    · rw [h, if_neg hq, if_neg hq']
      simp [Config.isDisplay]

end Board

/-! ### Steps one behind the other -/

namespace Machine

variable {M : Type} [Bus M]

/-- A step that succeeds. -/
structure Success (M : Type) [Bus M] where
  before : Machine M
  after : Machine M
  report : StepReport
  step_eq : before.step = (after, .ok report)

/-- Steps one behind the other, the first of them with a board and the last of them leaving one. -/
inductive Trail : Board → List (Success M) → Board → Prop
  | nil (board : Board) : Trail board [] board
  | cons (step : Success M) {more : List (Success M)} {last : Board}
      (hmore : Trail step.after.board more last) : Trail step.before.board (step :: more) last

namespace Success

/-- The access of a step. -/
def access? (step : Success M) : Option PortAccess :=
  step.before.access?

/-- The board behind a step, and its events, are those of its access. -/
lemma behind_eq (step : Success M) :
    (step.before.board.behind step.before.registers.i step.before.readWord
        step.access?).1 = step.after.board ∧
      (step.before.board.behind step.before.registers.i step.before.readWord
        step.access?).2.toList = step.report.events := by
  have h := step_board step.step_eq
  exact ⟨(congrArg Prod.fst h).symm, (congrArg Prod.snd h).symm⟩

/-- A step leaves the reserved ports as they are. -/
lemma config_after (step : Success M) :
    step.after.board.config = step.before.board.config := by
  rw [← step.behind_eq.1]
  exact Board.config_behind ..

/-- The latches behind a step are those behind its access. -/
lemma read_after (step : Success M) (port : UInt8) :
    step.after.board.ports.read port =
      if port = step.before.board.config.storage then step.before.board.ports.read port
      else (PortAccess.writtenTo port step.access?.toList).getLastD
        (step.before.board.ports.read port) := by
  rw [← step.behind_eq.1]
  exact Board.read_behind ..

end Success

/-- The accesses of steps, in their order. -/
def accesses (trail : List (Success M)) : List PortAccess :=
  trail.filterMap Success.access?

/-- The event of the step at a place of a trail, given the register to which a byte for the serial
controller goes in front of the first step. -/
def eventAt? (config : Board.Config) (register : UInt8) (trail : List (Success M)) (n : Nat) :
    Option Event := do
  let step ← trail[n]?
  let access ← step.access?
  let written := PortAccess.writtenTo config.sio (accesses (trail.take n))
  access.event? config (Sio.registerBehind register written) step.before.registers.i
    step.before.readWord

namespace Trail

variable {board last : Board} {trail : List (Success M)}

/-- What a step and others behind it have written to a port. -/
lemma writtenTo_accesses_cons (port : UInt8) (step : Success M) (more : List (Success M)) :
    PortAccess.writtenTo port (accesses (step :: more)) =
      PortAccess.writtenTo port step.access?.toList ++
        PortAccess.writtenTo port (accesses more) := by
  rw [accesses, List.filterMap_cons]
  cases step.access? with
  | none => rfl
  | some access => exact List.filterMap_append (l := [access])

/-- **A latch holds what was written to its port last**, unless it is that of the storage device. -/
theorem read_ports (h : Trail board trail last) (port : UInt8) :
    last.ports.read port =
      if port = board.config.storage then board.ports.read port
      else (PortAccess.writtenTo port (accesses trail)).getLastD (board.ports.read port) := by
  induction h with
  | nil => exact (ite_self _).symm
  | @cons step more last _ ih =>
    rw [ih, step.config_after, step.read_after, writtenTo_accesses_cons]
    split
    · rfl
    · simp only [List.getLastD_eq_getLast?, List.getLast?_append]
      cases (PortAccess.writtenTo port (accesses more)).getLast? <;> rfl

/-- The bytes for the serial controller that the first step writes are in front of all others. -/
lemma eventAt?_succ (config : Board.Config) (register : UInt8) (step : Success M)
    (more : List (Success M)) (n : Nat) :
    eventAt? config register (step :: more) (n + 1) =
      eventAt? config (Sio.registerBehind register
        (PortAccess.writtenTo config.sio step.access?.toList)) more n := by
  simp only [eventAt?, List.getElem?_cons_succ, List.take_succ_cons, writtenTo_accesses_cons,
    Sio.registerBehind, List.foldl_append]

/-- **The events of a trail** are those of its steps, each with the bytes that were written to the
serial controller before. -/
theorem flatMap_events (h : Trail board trail last) {register : UInt8}
    (hsio : board.config.sio ≠ board.config.storage → board.sio.Awaits register) :
    trail.flatMap (fun step => step.report.events) =
      (List.range trail.length).filterMap (eventAt? board.config register trail) := by
  induction h generalizing register with
  | nil => rfl
  | @cons step more last _ ih =>
    have hevent := Board.event_behind hsio step.before.registers.i step.before.readWord step.access?
    obtain ⟨hbehind, hevents⟩ := step.behind_eq
    have hmore := @ih (Sio.registerBehind register
      (PortAccess.writtenTo step.before.board.config.sio step.access?.toList)) (by
        rw [step.config_after, ← hbehind]
        exact fun hreserved => Board.sio_behind hreserved (hsio hreserved) _ _ _)
    rw [List.flatMap_cons, hmore, step.config_after, ← hevents, hevent, List.length_cons,
      List.range_succ_eq_map, List.filterMap_eq_flatMap_toList, List.filterMap_eq_flatMap_toList,
      List.flatMap_cons, List.flatMap_map]
    simp only [eventAt?_succ]
    rfl

end Trail

/-! ### Runs -/

/-- The next steps of a machine: a number of them, or up to the first that fails. -/
def successes (m : Machine M) : (count : Nat) → List (Success M)
  | 0 => []
  | count + 1 =>
    match hstep : m.step with
    | (after, .ok report) => ⟨m, after, report, hstep⟩ :: after.successes count
    | (_, .error _) => []

/-- The next steps of a machine are a trail. -/
lemma exists_trail_successes (m : Machine M) (count : Nat) :
    ∃ last, Trail m.board (m.successes count) last := by
  induction count generalizing m with
  | zero => exact ⟨m.board, .nil m.board⟩
  | succ count ih =>
    rw [successes]
    split
    · next after report hstep =>
      obtain ⟨last, hmore⟩ := ih after
      exact ⟨last, .cons ⟨m, after, report, hstep⟩ hmore⟩
    · exact ⟨m.board, .nil m.board⟩

/-- **Ports and events over a run.**  For all boards and programs and any number of steps, between
which nobody else changes the board: each step raises at most one event and changes no latch but the
one to which it writes, and a read gives the byte in the latch of its port; in the end each latch
holds what was written to its port last, or what it held, and that of the storage device what it
held; and the events, in their order, are those of the accesses, where a byte for the serial
controller is an interrupt vector if the bytes for it that were written before select register 2.

**Proof sketch.** A step makes the access of its instruction and no other, so the boards of a trail
are those behind its accesses.  An access takes the latches, and the register that the controller
awaits, from what was written before it to what was written behind it. -/
theorem port_contract {board last : Board} {trail : List (Success M)}
    (h : Trail board trail last) :
    (∀ step ∈ trail, step.report.events.length ≤ 1 ∧
      (∀ port, step.after.board.ports.read port ≠ step.before.board.ports.read port →
        ∃ v, step.access? = some (.write port v)) ∧
      ∀ port, step.access? = some (.read port) →
        step.before.Receives step.after (step.before.board.ports.read port)) ∧
    (∀ port, last.ports.read port =
      if port = board.config.storage then board.ports.read port
      else (PortAccess.writtenTo port (accesses trail)).getLastD (board.ports.read port)) ∧
    trail.flatMap (fun step => step.report.events) =
      (List.range trail.length).filterMap
        (eventAt? board.config board.sio.register trail) := by
  refine ⟨fun step _ => ⟨?_, fun port hchanged => ?_, fun port hread => ?_⟩, h.read_ports,
    h.flatMap_events fun _ => board.sio.awaits_register⟩
  · rw [← step.behind_eq.2]
    exact Option.length_toList_le
  · rw [step.read_after] at hchanged
    rcases haccess : step.access? with _ | q | ⟨q, v⟩
    · simp [haccess, PortAccess.writtenTo] at hchanged
    · simp [haccess, PortAccess.writtenTo] at hchanged
    · rw [haccess, Option.toList_some, PortAccess.writtenTo_write] at hchanged
      by_cases hport : q = port
      · exact ⟨v, by rw [hport]⟩
      · simp [hport] at hchanged
  · exact step_receives step.step_eq hread

/-- Two bytes for the serial controller tell it a vector. -/
theorem port_contract_vector :
    ∃ (trail : List (Success Memory)) (last : Board),
      Trail (Board.start {}) trail last ∧ trail.length = 4 ∧
        trail.flatMap (fun step => step.report.events) = [.sioVector 0x40 0x0040 0] ∧
        last.ports.read 0x82 = 0x40 := by
  -- `ld a,02h`, `out (82h),a`, `ld a,40h`, `out (82h),a`
  obtain ⟨last, htrail⟩ := exists_trail_successes
    (start (Memory.blank.load 0 [0x3E, 0x02, 0xD3, 0x82, 0x3E, 0x40, 0xD3, 0x82]) {}) 4
  obtain ⟨-, hports, hevents⟩ := port_contract htrail
  refine ⟨_, last, htrail, by decide +kernel, hevents.trans (by decide +kernel), ?_⟩
  rw [hports]
  decide +kernel

/-- A run is a trail of steps, whose events it reports. -/
theorem exists_trail_of_runFrom {m after : Machine M} {done result : RunReport} {budget : Nat}
    (h : m.runFrom done budget = (after, .ok result)) :
    ∃ trail : List (Success M), Trail m.board trail after.board ∧
      result.events.toList =
        done.events.toList ++ trail.flatMap fun step => step.report.events := by
  induction budget generalizing m done with
  | zero =>
    simp only [runFrom, Prod.mk.injEq, Except.ok.injEq] at h
    obtain ⟨rfl, rfl⟩ := h
    exact ⟨[], .nil _, by simp⟩
  | succ budget ih =>
    rw [runFrom] at h
    rcases hstep : m.step with ⟨next, fault | report⟩
    · simp [hstep] at h
    · simp only [hstep] at h
      split at h
      · simp only [Prod.mk.injEq, Except.ok.injEq] at h
        obtain ⟨rfl, rfl⟩ := h
        exact ⟨[⟨m, next, report, hstep⟩], .cons ⟨m, next, report, hstep⟩ (.nil _), by simp⟩
      · obtain ⟨trail, htrail, hevents⟩ := ih h
        refine ⟨⟨m, next, report, hstep⟩ :: trail, .cons ⟨m, next, report, hstep⟩ htrail, ?_⟩
        rw [hevents]
        simp

/-- Interrupts leave the board alone. -/
theorem board_interrupts (m : Machine M) (data : UInt8) :
    (m.interrupt data).1.board = m.board ∧ m.nonMaskableInterrupt.board = m.board := by
  refine ⟨?_, rfl⟩
  unfold interrupt
  split
  · split <;> rfl
  · rfl

end Machine

end Z80
