import Z80.Proofs.Machine.PortHistory

/-!
# The control stream of the serial controller

The bytes for the control port of the serial controller are commands, one behind the other.  A
command starts with a byte for register 0, and if the three lowest bits of that byte select another
register then one byte of data follows, whatever it looks like.  The board reports the data of
register 2 as an interrupt vector, and nothing else.

## Main definitions

* `Z80.Sio.Command`, `Z80.Sio.commands` — the commands of a stream of bytes.
* `Z80.Sio.IsVectorAt` — the bytes of a stream that are interrupt vectors.
* `Z80.Board.Request`, `Z80.Board.serveAll` — what is asked of a board, and its answers.

## Main results

* `Z80.Sio.isGreedy_commands` — a stream is split into its commands from the left.
* `Z80.Sio.isVectorAt_iff` — the controller awaits a vector where one is.
* `Z80.Board.getElem?_serveAll` — each access is answered by what was written before it.
* `Z80.Board.vector_iff_isVectorAt` — which vectors a board reports.
-/

namespace Z80

/-! ### Commands -/

namespace Sio

/-- A command for the serial controller. -/
structure Command where
  /-- The byte for register 0. -/
  pointer : UInt8
  /-- The byte for the register that is selected, unless that is register 0 or the stream ends. -/
  data? : Option UInt8
  deriving DecidableEq, Repr

namespace Command

/-- The register that a command selects. -/
def register (command : Command) : Nat :=
  command.pointer.toNat % 8

/-- The bytes of a command. -/
def bytes (command : Command) : List UInt8 :=
  command.pointer :: command.data?.toList

end Command

/-- The commands of a stream. -/
def commands : List UInt8 → List Command
  | [] => []
  | [p] => [⟨p, none⟩]
  | p :: v :: rest =>
    if p.toNat % 8 = 0 then ⟨p, none⟩ :: commands (v :: rest) else ⟨p, some v⟩ :: commands rest

/-- The commands are all that a stream consists of.  Only those that select a register have data,
and no more than the last of them may lack it. -/
structure IsGreedy (stream : List UInt8) (commands : List Command) : Prop where
  flatMap_bytes : commands.flatMap Command.bytes = stream
  register_ne : ∀ command ∈ commands, command.data?.isSome → command.register ≠ 0
  isSome_data? : ∀ command ∈ commands.dropLast, command.register ≠ 0 → command.data?.isSome

/-- The byte `v` is the interrupt vector at a place of a stream: the data of a command that selects
register 2. -/
def IsVectorAt (stream : List UInt8) (place : Nat) (v : UInt8) : Prop :=
  ∃ front command back, commands stream = front ++ command :: back ∧ command.register = 2 ∧
    command.data? = some v ∧ place = (front.flatMap Command.bytes).length + 1

/-- A command in front of others. -/
lemma IsGreedy.cons {stream : List UInt8} {more : List Command} (h : IsGreedy stream more)
    {command : Command} (hdata : command.data?.isSome ↔ command.register ≠ 0) :
    IsGreedy (command.bytes ++ stream) (command :: more) where
  flatMap_bytes := by rw [List.flatMap_cons, h.flatMap_bytes]
  register_ne := List.forall_mem_cons.2 ⟨hdata.1, h.register_ne⟩
  isSome_data? := by
    intro other hmem
    cases more with
    | nil => cases hmem
    | cons next more =>
      rw [List.dropLast_cons_cons] at hmem
      rcases List.mem_cons.1 hmem with rfl | hmem
      · exact hdata.2
      · exact h.isSome_data? other hmem

/-- **A stream is split into its commands from the left.** -/
theorem isGreedy_commands (stream : List UInt8) : IsGreedy stream (commands stream) := by
  induction stream using commands.induct with
  | case1 => exact ⟨rfl, by simp [commands], by simp [commands]⟩
  | case2 p => exact ⟨rfl, by simp [commands], by simp [commands]⟩
  | case3 p v rest hzero ih =>
    rw [commands, if_pos hzero]
    have hdata : (⟨p, none⟩ : Command).data?.isSome ↔ (⟨p, none⟩ : Command).register ≠ 0 := by
      simp [Command.register, hzero]
    exact ih.cons hdata
  | case4 p v rest hselects ih =>
    rw [commands, if_neg hselects]
    have hdata : (⟨p, some v⟩ : Command).data?.isSome ↔ (⟨p, some v⟩ : Command).register ≠ 0 := by
      simp [Command.register, hselects]
    exact ih.cons hdata

/-! ### Vectors -/

/-- The three lowest bits of a byte. -/
lemma toNat_and_seven (v : UInt8) : (v &&& 0x07).toNat = v.toNat % 8 := by
  rw [UInt8.toNat_and]
  exact Nat.and_two_pow_sub_one_eq_mod v.toNat 3

/-- A register is selected by its number. -/
lemma and_seven_eq_iff {v n : UInt8} : v &&& 0x07 = n ↔ v.toNat % 8 = n.toNat := by
  rw [← UInt8.toNat_inj, toNat_and_seven]

/-- A vector is the data of the first command, or one behind the first command. -/
lemma isVectorAt_cons {stream rest : List UInt8} {command : Command} {place : Nat} {v : UInt8}
    (h : commands stream = command :: commands rest) :
    IsVectorAt stream place v ↔
      (place = 1 ∧ command.register = 2 ∧ command.data? = some v) ∨
        command.bytes.length ≤ place ∧ IsVectorAt rest (place - command.bytes.length) v := by
  constructor
  · rintro ⟨front, found, back, hsplit, hregister, hdata, hplace⟩
    rw [h] at hsplit
    cases front with
    | nil =>
      obtain ⟨hfound, -⟩ := List.cons.inj hsplit
      exact .inl ⟨by simpa using hplace, hfound ▸ hregister, hfound ▸ hdata⟩
    | cons first front =>
      obtain ⟨hfirst, hmore⟩ := List.cons.inj hsplit
      rw [List.flatMap_cons, List.length_append, ← hfirst] at hplace
      exact .inr ⟨by omega, front, found, back, hmore, hregister, hdata, by omega⟩
  · rintro (⟨hplace, hregister, hdata⟩ | ⟨hle, front, found, back, hmore, hregister, hdata, hplace⟩)
    · exact ⟨[], command, _, h, hregister, hdata, hplace⟩
    · refine ⟨command :: front, found, back, by rw [h, hmore, List.cons_append], hregister, hdata,
        ?_⟩
      rw [List.flatMap_cons, List.length_append]
      omega

/-- **The controller awaits a vector where one is.**

**Proof sketch.** Induction on the commands.  Behind each of them the next byte goes to register 0
again, so the place of a vector in a later command is counted from there. -/
theorem isVectorAt_iff {stream : List UInt8} {place : Nat} {v : UInt8} :
    IsVectorAt stream place v ↔
      stream[place]? = some v ∧ registerBehind 0 (stream.take place) = 2 := by
  induction stream using commands.induct generalizing place with
  | case1 => simp [IsVectorAt, commands]
  | case2 p =>
    have hnone : ¬IsVectorAt [p] place v := by
      have hsplit : commands [p] = ⟨p, none⟩ :: commands [] := rfl
      rw [isVectorAt_cons hsplit]
      simp [IsVectorAt, commands]
    cases place with
    | zero => simp [hnone, registerBehind]
    | succ place => simp [hnone]
  | case3 p d rest hzero ih =>
    have hbehind : p &&& 0x07 = 0 := and_seven_eq_iff.2 hzero
    have hsplit : commands (p :: d :: rest) = ⟨p, none⟩ :: commands (d :: rest) := by
      rw [commands, if_pos hzero]
    rw [isVectorAt_cons hsplit]
    cases place with
    | zero => simp [Command.bytes, registerBehind]
    | succ place => simpa [Command.bytes, registerBehind, hbehind] using ih
  | case4 p d rest hselects ih =>
    have hbehind : p &&& 0x07 ≠ 0 := fun h => hselects (and_seven_eq_iff.1 h)
    have hvector : p &&& 0x07 = 2 ↔ p.toNat % 8 = 2 := and_seven_eq_iff
    have hsplit : commands (p :: d :: rest) = ⟨p, some d⟩ :: commands rest := by
      rw [commands, if_neg hselects]
    rw [isVectorAt_cons hsplit]
    cases place with
    | zero => simp [Command.bytes, registerBehind]
    | succ place =>
      cases place with
      | zero => simp [Command.bytes, Command.register, registerBehind, hvector, and_comm]
      | succ place => simpa [Command.bytes, registerBehind, hbehind] using ih

end Sio

/-! ### Boards -/

/-- An access raises the event of a vector if it writes one to the serial controller. -/
lemma PortAccess.event?_eq_sioVector_iff {config : Board.Config}
    (hreserved : config.sio ≠ config.storage) {register i : UInt8} {readWord : UInt16 → UInt16}
    {access : PortAccess} {vector : UInt8} {entry handler : UInt16} :
    access.event? config register i readWord = some (.sioVector vector entry handler) ↔
      access = .write config.sio vector ∧ register = 2 ∧
        entry = UInt16.ofNat (i.toNat * 256 + vector.toNat) ∧ handler = readWord entry := by
  cases access with
  | read port => simp [event?]
  | write port v =>
    by_cases hstorage : port = config.storage
    · have hsio : port ≠ config.sio := fun h => hreserved (h.symm.trans hstorage)
      simp [event?, hstorage, hreserved.symm]
    · by_cases hsio : port = config.sio
      · by_cases hregister : register = 2
        · simp only [event?, hsio, hreserved, hregister]
          grind
        · simp [event?, hsio, hreserved, hregister]
      · simp [event?, hstorage, hsio]

namespace Board

/-- What is asked of a board. -/
inductive Request where
  /-- An access to a port, with the interrupt register and memory. -/
  | access (made : PortAccess) (i : UInt8) (readWord : UInt16 → UInt16)
  | reset

/-- The access that is asked for. -/
def Request.access? : Request → Option PortAccess
  | .access made _ _ => some made
  | .reset => none

/-- What a request raises, given the register to which a byte for the serial controller goes. -/
def Request.event? (config : Config) (register : UInt8) : Request → Option Event
  | .access made i readWord => made.event? config register i readWord
  | .reset => none

/-- The board behind a request, and what it reports. -/
def serve (board : Board) : Request → Board × Option Event
  | .access made i readWord => board.behind i readWord (some made)
  | .reset => (board.reset, none)

/-- The board behind requests, and what it reports for each of them. -/
def serveAll (board : Board) : List Request → Board × List (Option Event)
  | [] => (board, [])
  | request :: more =>
    let (next, event?) := board.serve request
    let (last, events) := next.serveAll more
    (last, event? :: events)

/-- The bytes that requests write to the control port of the serial controller. -/
def controlStream (config : Config) (requests : List Request) : List UInt8 :=
  PortAccess.writtenTo config.sio (requests.filterMap Request.access?)

/-- A request leaves the reserved ports as they are. -/
lemma config_serve (board : Board) (request : Request) :
    (board.serve request).1.config = board.config := by
  cases request with
  | access made i readWord => exact config_behind ..
  | reset => rfl

/-- Requests leave the reserved ports as they are. -/
lemma config_serveAll (board : Board) (requests : List Request) :
    (board.serveAll requests).1.config = board.config := by
  induction requests generalizing board with
  | nil => rfl
  | cons request more ih => exact (ih _).trans (board.config_serve request)

/-- The last request is served last. -/
lemma fst_serveAll_concat (board : Board) (requests : List Request) (request : Request) :
    (board.serveAll (requests ++ [request])).1 =
      ((board.serveAll requests).1.serve request).1 := by
  induction requests generalizing board with
  | nil => rfl
  | cons first more ih => exact ih _

/-- Behind a reset the board is as at power-on. -/
lemma fst_serveAll_of_reset {config : Config} {requests : List Request}
    (h : requests = [] ∨ requests.getLast? = some .reset) :
    ((start config).serveAll requests).1 = start config := by
  rcases h with rfl | hlast
  · rfl
  · obtain ⟨front, rfl⟩ := List.getLast?_eq_some_iff.1 hlast
    rw [fst_serveAll_concat]
    exact congrArg start (config_serveAll _ _)

/-- What one more request in front writes to the control port. -/
lemma controlStream_cons (config : Config) (request : Request) (more : List Request) :
    controlStream config (request :: more) =
      PortAccess.writtenTo config.sio request.access?.toList ++ controlStream config more := by
  rw [controlStream, controlStream, List.filterMap_cons]
  cases request.access? with
  | none => rfl
  | some access => exact List.filterMap_append (l := [access])

/-- The bytes that are written in front of a request, by it and behind it. -/
lemma controlStream_eq {config : Config} {requests : List Request} {n : Nat} {request : Request}
    (h : requests[n]? = some request) :
    controlStream config requests = controlStream config (requests.take n) ++
      (PortAccess.writtenTo config.sio request.access?.toList ++
        controlStream config (requests.drop (n + 1))) := by
  obtain ⟨hlt, rfl⟩ := List.getElem?_eq_some_iff.1 h
  rw [← controlStream_cons, List.getElem_cons_drop, controlStream, controlStream, controlStream,
    PortAccess.writtenTo, PortAccess.writtenTo, PortAccess.writtenTo, ← List.filterMap_append,
    ← List.filterMap_append, List.take_append_drop]

/-- **Each access is answered by what was written to the serial controller before it.**

**Proof sketch.** Induction on the requests.  An access takes the register that the controller
awaits from what was written before it to what was written behind it. -/
theorem getElem?_serveAll {board : Board} (hreserved : board.config.sio ≠ board.config.storage)
    {register : UInt8} (hsio : board.sio.Awaits register) {requests : List Request}
    (hreset : .reset ∉ requests) (n : Nat) :
    (board.serveAll requests).2[n]? = requests[n]?.map (Request.event? board.config
      (Sio.registerBehind register (controlStream board.config (requests.take n)))) := by
  induction requests generalizing board register n with
  | nil => rfl
  | cons request more ih =>
    obtain ⟨hfirst, hmore⟩ := not_or.1 (mt List.mem_cons.2 hreset)
    match request with
    | .reset => exact absurd rfl hfirst
    | .access made i readWord =>
      cases n with
      | zero => exact congrArg some (event_behind (fun _ => hsio) i readWord (some made))
      | succ n =>
        have hconfig : (board.behind i readWord (some made)).1.config = board.config :=
          config_behind ..
        have hnext := ih (hconfig.symm ▸ hreserved)
          (sio_behind hreserved hsio i readWord (some made)) hmore n
        rw [hconfig] at hnext
        rw [List.take_succ_cons, controlStream_cons, Sio.registerBehind, List.foldl_append]
        exact hnext

/-- **The board reports the interrupt vectors of the control stream.**  Whatever was asked of a
board before, from power-on or a reset on the bytes for the serial controller are split into
commands from the left, and a request raises the event of an interrupt vector exactly if it writes
the data of a command that selects register 2.  Other ports have no part in it.

**Proof sketch.** The event of an access depends on the register that the controller awaits behind
the bytes written before, and this is register 2 where the split has a vector. -/
theorem vector_iff_isVectorAt {config : Config} (hreserved : config.sio ≠ config.storage)
    {earlier requests : List Request} (hfresh : earlier = [] ∨ earlier.getLast? = some .reset)
    (hreset : .reset ∉ requests) :
    Sio.IsGreedy (controlStream config requests)
        (Sio.commands (controlStream config requests)) ∧
      ∀ (n : Nat) (vector : UInt8) (entry handler : UInt16),
        (((start config).serveAll earlier).1.serveAll requests).2[n]? =
            some (some (.sioVector vector entry handler)) ↔
          ∃ i readWord, requests[n]? = some (.access (.write config.sio vector) i readWord) ∧
            Sio.IsVectorAt (controlStream config requests)
              (controlStream config (requests.take n)).length vector ∧
            entry = UInt16.ofNat (i.toNat * 256 + vector.toNat) ∧ handler = readWord entry := by
  refine ⟨Sio.isGreedy_commands _, fun n vector entry handler => ?_⟩
  have hawaits : (start config).sio.Awaits 0 := rfl
  rw [fst_serveAll_of_reset hfresh, getElem?_serveAll hreserved hawaits hreset n]
  constructor
  · intro hevent
    obtain ⟨request, hrequest, hevent⟩ := Option.map_eq_some_iff.1 hevent
    match request with
    | .reset => cases hevent
    | .access made i readWord =>
      obtain ⟨rfl, hregister, hentry, hhandler⟩ :=
        (PortAccess.event?_eq_sioVector_iff hreserved).1 hevent
      refine ⟨i, readWord, hrequest, Sio.isVectorAt_iff.2 ?_, hentry, hhandler⟩
      rw [controlStream_eq hrequest, List.take_left]
      exact ⟨by simp [Request.access?, PortAccess.writtenTo], hregister⟩
  · rintro ⟨i, readWord, hrequest, hvector, hentry, hhandler⟩
    obtain ⟨-, hregister⟩ := Sio.isVectorAt_iff.1 hvector
    rw [controlStream_eq hrequest, List.take_left] at hregister
    refine Option.map_eq_some_iff.2 ⟨_, hrequest, ?_⟩
    exact (PortAccess.event?_eq_sioVector_iff hreserved).2 ⟨rfl, hregister, hentry, hhandler⟩

/-- A selection that a reset cut off is forgotten, one with command bits is not, and the vector may
look like a selection itself. -/
theorem vector_iff_isVectorAt_selected :
    (((start {}).serveAll [.access (.write 0x82 0x05) 0x80 id, .reset]).1.serveAll
        [.access (.write 0x82 0x12) 0x80 id, .access (.write 0x40 0x03) 0x80 id,
          .access (.read 0x82) 0x80 id, .access (.write 0x82 0x02) 0x80 id]).2[3]? =
      some (some (.sioVector 0x02 0x8002 0x8002)) := by
  refine ((vector_iff_isVectorAt (by decide) (.inr rfl) (by simp)).2 3 0x02 0x8002 0x8002).2
    ⟨0x80, id, rfl, ⟨[], ⟨0x12, some 0x02⟩, [], by decide, rfl, rfl, rfl⟩, rfl, rfl⟩

end Board

end Z80
