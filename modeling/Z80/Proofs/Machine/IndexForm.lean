import Z80.Proofs.Machine.Frame

/-!
# Index registers in the place of `hl`

The instructions behind the prefix of an index register are those without it in which the index
register takes the place of `hl`.  Those that name registers only do what these do while the two
registers are exchanged; those with an indexed cell do what these do while `hl` holds the address of
that cell.

## Main definitions

* `Z80.Machine.executeAt` — the outcome of an operation whose operand bytes start at an address, and
  the address behind them.
* `Z80.Machine.exchangeIndex` — the machine with `hl` and an index register exchanged.
* `Z80.Operation.exchanged?` — an operation on registers with the two exchanged in it.
* `Z80.Operation.displaced?` — an operation on the cell at `hl` with the indexed cell in its place.

## Main results

* `Z80.Machine.execute_exchanged`, `Z80.Machine.execute_displaced` — what these operations do.
* `Z80.Operation.indexForm_of_mem_all` — each instruction behind an index prefix has one of the two
  forms.
* `Z80.Machine.index_form` — index registers take the place of `hl`.
-/

namespace Z80

/-- What an operation does, and something done to the machine behind it. -/
def Outcome.map {M : Type} (f : Machine M → Machine M) (outcome : Outcome M) : Outcome M :=
  { outcome with machine := f outcome.machine }

/-- Something done to the machine behind an operation that passes control on. -/
lemma Machine.map_passOn {M : Type} (f : Machine M → Machine M) (m : Machine M) :
    m.passOn.map f = (f m).passOn := rfl

namespace Machine

variable {M : Type} [Bus M]

/-- The outcome of an operation whose operand bytes start at an address, and the address behind
them. -/
def executeAt (m : Machine M) (op : Operation) (address : UInt16) : Outcome M × UInt16 :=
  let (operands, behind) := op.fetch m.read address
  (m.execute op operands behind, behind)

/-- The operation of a descriptor without a displacement in front of its opcode is performed where
its operand bytes start. -/
lemma perform_eq_executeAt {d : Descriptor} {op : Operation}
    (hop : Operation.ofOpcode? d.space d.byte = some op) {i : Index} (hspace : d.space = .index i)
    (hd : d ∈ Descriptor.all) (m : Machine M) (address : UInt16) :
    m.perform d address =
      let (outcome, behind) := m.executeAt op (d.space.operandsAt address)
      let (after, report) := finish outcome address behind
      (after, .ok report) := by
  obtain ⟨op', hop', hcarries, hperform⟩ := perform_eq hd m address
  obtain rfl : op' = op := Option.some.inj (hop'.symm.trans hop)
  have hbehind := hcarries.behind_eq m.read address
  rw [hspace] at hbehind
  rw [hperform, hspace]
  simp only [executeAt, ← hbehind]
  rfl

end Machine

/-! ### The exchange of `hl` and an index register -/

/-- The byte register in the place of another one when `hl` and an index register are exchanged. -/
def ByteReg.exchanged (i : Index) : ByteReg → ByteReg
  | h => half i true
  | l => half i false
  | half j high => if j = i then if high then h else l else half j high
  | register => register

/-- The word register in the place of another one when `hl` and an index register are exchanged. -/
def WordReg.exchanged (i : Index) : WordReg → WordReg
  | hl => index i
  | index j => if j = i then hl else index j
  | register => register

/-- The source of a word when `hl` and an index register are exchanged. -/
def WordSource.exchanged (i : Index) : WordSource → WordSource
  | reg register => reg (register.exchanged i)
  | source => source

/-- An operation that names registers only, when `hl` and an index register are exchanged in it. -/
def Operation.exchanged? (i : Index) : Operation → Option Operation
  | load (.reg target) (.place (.reg source)) =>
    some (load (.reg (target.exchanged i)) (.place (.reg (source.exchanged i))))
  | load (.reg target) .immediate => some (load (.reg (target.exchanged i)) .immediate)
  | arithmetic op (.place (.reg source)) =>
    some (arithmetic op (.place (.reg (source.exchanged i))))
  | increment (.reg register) => some (increment (.reg (register.exchanged i)))
  | decrement (.reg register) => some (decrement (.reg (register.exchanged i)))
  | loadWord target source => some (loadWord (target.exchanged i) (source.exchanged i))
  | storeWord source => some (storeWord (source.exchanged i))
  | push source => some (push (source.exchanged i))
  | pop target => some (pop (target.exchanged i))
  | exchangeTop register => some (exchangeTop (register.exchanged i))
  | addWord target source => some (addWord (target.exchanged i) (source.exchanged i))
  | incrementWord register => some (incrementWord (register.exchanged i))
  | decrementWord register => some (decrementWord (register.exchanged i))
  | jumpTo register => some (jumpTo (register.exchanged i))
  | _ => none

namespace Registers

/-- The registers with `hl` and an index register exchanged. -/
def exchangeIndex (r : Registers) (i : Index) : Registers :=
  (r.setWord .hl (r.index i)).setIndex i (r.word .hl)

variable (r : Registers) (i : Index)

/-- Registers that are exchanged twice are as they were. -/
@[simp]
lemma exchangeIndex_exchangeIndex : (r.exchangeIndex i).exchangeIndex i = r := by
  cases i <;>
    simp [exchangeIndex, setWord, setIndex, word, index, wordOf_bytes, lowByte_wordOf,
      highByte_wordOf]

/-- A byte register behind the exchange. -/
@[simp]
lemma byte_exchangeIndex (register : ByteReg) :
    (r.exchangeIndex i).byte register = r.byte (register.exchanged i) := by
  cases register with
  | half j high =>
    cases i <;> cases j <;> cases high <;>
      simp [exchangeIndex, byte, setWord, setIndex, word, index, ByteReg.exchanged, lowByte_wordOf,
        highByte_wordOf]
  | _ => cases i <;> rfl

/-- A word register behind the exchange. -/
@[simp]
lemma word_exchangeIndex (register : WordReg) :
    (r.exchangeIndex i).word register = r.word (register.exchanged i) := by
  cases register with
  | index j =>
    cases i <;> cases j <;> simp [exchangeIndex, setWord, setIndex, word, index, WordReg.exchanged]
  | hl =>
    cases i <;>
      simp [exchangeIndex, setWord, setIndex, word, index, WordReg.exchanged, wordOf_bytes]
  | _ => cases i <;> rfl

/-- A byte register that is set behind the exchange. -/
lemma setByte_exchangeIndex (register : ByteReg) (v : UInt8) :
    (r.exchangeIndex i).setByte register v =
      (r.setByte (register.exchanged i) v).exchangeIndex i := by
  cases register with
  | half j high =>
    cases i <;> cases j <;> cases high <;>
      simp [exchangeIndex, setByte, setWord, setIndex, word, index, ByteReg.exchanged,
        lowByte_wordOf, highByte_wordOf]
  | h | l =>
    cases i <;>
      simp [exchangeIndex, setByte, setWord, setIndex, word, index, ByteReg.exchanged,
        lowByte_wordOf, highByte_wordOf]
  | _ => cases i <;> rfl

/-- A word register that is set behind the exchange. -/
lemma setWord_exchangeIndex (register : WordReg) (w : UInt16) :
    (r.exchangeIndex i).setWord register w =
      (r.setWord (register.exchanged i) w).exchangeIndex i := by
  cases register with
  | index j =>
    cases i <;> cases j <;>
      simp [exchangeIndex, setWord, setIndex, word, index, WordReg.exchanged, wordOf_bytes]
  | hl => cases i <;> rfl
  | _ => cases i <;> rfl

/-- The exchange leaves the flags alone. -/
@[simp]
lemma flags_exchangeIndex : (r.exchangeIndex i).flags = r.flags := by
  cases i <;> rfl

/-- Flags that are set behind the exchange. -/
lemma setFlags_exchangeIndex (f : Flags) :
    (r.exchangeIndex i).setFlags f = (r.setFlags f).exchangeIndex i := by
  cases i <;> rfl

/-- An accumulator that is set with its flags behind the exchange. -/
lemma setResult_exchangeIndex (result : UInt8 × Flags) :
    (r.exchangeIndex i).setResult result = (r.setResult result).exchangeIndex i := by
  cases i <;> rfl

/-- The exchange leaves the accumulator alone. -/
@[simp]
lemma a_exchangeIndex : (r.exchangeIndex i).main.a = r.main.a := by
  cases i <;> rfl

/-- The exchange leaves the stack pointer alone. -/
@[simp]
lemma sp_exchangeIndex : (r.exchangeIndex i).sp = r.sp := by
  cases i <;> rfl

end Registers

namespace Machine

/-- The machine with `hl` and an index register exchanged. -/
def exchangeIndex {M : Type} (m : Machine M) (i : Index) : Machine M :=
  m.mapRegisters (·.exchangeIndex i)

section Exchange

variable {M : Type} (m : Machine M) (i : Index)

/-- Registers that change alike in front of the exchange and behind it. -/
lemma mapRegisters_exchangeIndex {f g : Registers → Registers}
    (h : f (m.registers.exchangeIndex i) = (g m.registers).exchangeIndex i) :
    (m.exchangeIndex i).mapRegisters f = (m.mapRegisters g).exchangeIndex i := by
  obtain ⟨registers, memory, board, isHalted⟩ := m
  exact congrArg (Machine.mk · memory board isHalted) h

/-- A machine whose registers are exchanged twice is as it was. -/
@[simp]
lemma exchangeIndex_exchangeIndex : (m.exchangeIndex i).exchangeIndex i = m := by
  obtain ⟨registers, memory, board, isHalted⟩ := m
  exact congrArg (Machine.mk · memory board isHalted) (registers.exchangeIndex_exchangeIndex i)

/-- A byte register behind the exchange. -/
@[simp]
lemma byte_exchangeIndex (register : ByteReg) :
    (m.exchangeIndex i).registers.byte register = m.registers.byte (register.exchanged i) :=
  m.registers.byte_exchangeIndex i register

/-- A word register behind the exchange. -/
@[simp]
lemma word_exchangeIndex (register : WordReg) :
    (m.exchangeIndex i).registers.word register = m.registers.word (register.exchanged i) :=
  m.registers.word_exchangeIndex i register

/-- The exchange leaves the flags alone. -/
@[simp]
lemma flags_exchangeIndex : (m.exchangeIndex i).registers.flags = m.registers.flags :=
  m.registers.flags_exchangeIndex i

/-- The exchange leaves the stack pointer alone. -/
@[simp]
lemma sp_exchangeIndex : (m.exchangeIndex i).registers.sp = m.registers.sp :=
  m.registers.sp_exchangeIndex i

/-- A byte register that is set behind the exchange. -/
lemma setByte_exchangeIndex (register : ByteReg) (v : UInt8) :
    (m.exchangeIndex i).mapRegisters (·.setByte register v) =
      (m.mapRegisters (·.setByte (register.exchanged i) v)).exchangeIndex i :=
  m.mapRegisters_exchangeIndex i (m.registers.setByte_exchangeIndex i register v)

/-- A word register that is set behind the exchange. -/
lemma setWord_exchangeIndex (register : WordReg) (w : UInt16) :
    (m.exchangeIndex i).mapRegisters (·.setWord register w) =
      (m.mapRegisters (·.setWord (register.exchanged i) w)).exchangeIndex i :=
  m.mapRegisters_exchangeIndex i (m.registers.setWord_exchangeIndex i register w)

/-- Flags that are set behind the exchange. -/
lemma setFlags_exchangeIndex (f : Flags) :
    (m.exchangeIndex i).mapRegisters (·.setFlags f) =
      (m.mapRegisters (·.setFlags f)).exchangeIndex i :=
  m.mapRegisters_exchangeIndex i (m.registers.setFlags_exchangeIndex i f)

/-- The operation of the accumulator with a byte behind the exchange. -/
lemma arithmetic_exchangeIndex (op : Arithmetic) (v : UInt8) :
    (m.exchangeIndex i).arithmetic op v = (m.arithmetic op v).exchangeIndex i :=
  m.mapRegisters_exchangeIndex i (by simp [Registers.setResult_exchangeIndex])

/-- A word that is taken from the stack behind the exchange. -/
lemma dropWord_exchangeIndex : (m.exchangeIndex i).dropWord = m.dropWord.exchangeIndex i := by
  cases i <;> rfl

variable [Bus M]

/-- A word in memory behind the exchange. -/
lemma readWord_exchangeIndex (address : UInt16) :
    (m.exchangeIndex i).readWord address = m.readWord address := rfl

/-- A word that is written behind the exchange. -/
lemma writeWord_exchangeIndex (address w : UInt16) :
    (m.exchangeIndex i).writeWord address w = (m.writeWord address w).exchangeIndex i := rfl

/-- A source of a word behind the exchange. -/
lemma wordFrom_exchangeIndex (operands : Operands) (source : WordSource) :
    (m.exchangeIndex i).wordFrom operands source = m.wordFrom operands (source.exchanged i) := by
  cases source with
  | reg register => exact m.word_exchangeIndex i register
  | immediate | direct => rfl

/-- The result of an operation on a byte register behind the exchange. -/
lemma putResult_exchangeIndex (operands : Operands) (register : ByteReg)
    (result : UInt8 × Flags) :
    (m.exchangeIndex i).putResult operands (.reg register) result =
      (m.putResult operands (.reg (register.exchanged i)) result).exchangeIndex i := by
  simp only [putResult, put, setFlags_exchangeIndex, setByte_exchangeIndex]

/-- A word on top of the stack behind the exchange. -/
lemma pushWord_exchangeIndex (w : UInt16) :
    (m.exchangeIndex i).pushWord w = (m.pushWord w).exchangeIndex i := by
  cases i <;> rfl

end Exchange

variable {M : Type} [Bus M]

/-- **An operation on registers does what it does when they are exchanged**, between two
exchanges. -/
theorem execute_exchanged (m : Machine M) {i : Index} {op exchanged : Operation}
    (h : op.exchanged? i = some exchanged) (operands : Operands) (next : UInt16) :
    (m.exchangeIndex i).execute op operands next =
      (m.execute exchanged operands next).map (·.exchangeIndex i) := by
  cases op with
  | load target source =>
    rcases target with target | cell
    · rcases source with ⟨source | cell⟩ | _
      · cases h
        simp only [execute, map_passOn, byteFrom, get, put, byte_exchangeIndex,
          setByte_exchangeIndex]
      · simp [Operation.exchanged?] at h
      · cases h
        simp only [execute, map_passOn, byteFrom, put, setByte_exchangeIndex]
    · simp [Operation.exchanged?] at h
  | arithmetic op source =>
    rcases source with ⟨source | cell⟩ | _
    · cases h
      simp only [execute, map_passOn, byteFrom, get, byte_exchangeIndex, arithmetic_exchangeIndex]
    · simp [Operation.exchanged?] at h
    · simp [Operation.exchanged?] at h
  | increment place | decrement place =>
    rcases place with register | cell
    · cases h
      simp only [execute, map_passOn, get, byte_exchangeIndex, flags_exchangeIndex,
        putResult_exchangeIndex]
    · simp [Operation.exchanged?] at h
  | loadWord target source =>
    cases h
    simp only [execute, map_passOn, wordFrom_exchangeIndex, setWord_exchangeIndex]
  | storeWord source =>
    cases h
    simp only [execute, map_passOn, word_exchangeIndex, writeWord_exchangeIndex]
  | push source =>
    cases h
    simp only [execute, map_passOn, word_exchangeIndex, pushWord_exchangeIndex]
  | pop target =>
    cases h
    simp only [execute, map_passOn, popWord, sp_exchangeIndex, readWord_exchangeIndex,
      dropWord_exchangeIndex, setWord_exchangeIndex]
  | exchangeTop register =>
    cases h
    simp only [execute, map_passOn, exchangeTop, sp_exchangeIndex, readWord_exchangeIndex,
      word_exchangeIndex, writeWord_exchangeIndex, setWord_exchangeIndex]
  | addWord target source =>
    cases h
    simp only [execute, map_passOn]
    refine congrArg passOn (m.mapRegisters_exchangeIndex i ?_)
    simp only [setWordResult, Registers.flags_exchangeIndex, Registers.word_exchangeIndex,
      Registers.setFlags_exchangeIndex, Registers.setWord_exchangeIndex]
  | incrementWord register | decrementWord register =>
    cases h
    simp only [execute, map_passOn]
    refine congrArg passOn (m.mapRegisters_exchangeIndex i ?_)
    rw [Registers.word_exchangeIndex, Registers.setWord_exchangeIndex]
  | jumpTo register =>
    cases h
    simp only [execute, jumpIf, Outcome.map, word_exchangeIndex]
  | _ => simp [Operation.exchanged?] at h

end Machine

/-! ### The cell at an address that `hl` holds for a while -/

/-- Whether a byte register is no part of `hl` or of an index register. -/
def ByteReg.isPlain : ByteReg → Bool
  | a | b | c | d | e => true
  | h | l | half _ _ => false

/-- An operation on the cell to which `hl` points, with the indexed cell in its place.  The byte
registers that take part in it are no part of `hl`. -/
def Operation.displaced? (i : Index) : Operation → Option Operation
  | load (.reg target) (.place (.cell (.pointed .hl))) =>
    if target.isPlain then some (load (.reg target) (.place (.cell (.indexed i)))) else none
  | load (.cell (.pointed .hl)) (.place (.reg source)) =>
    if source.isPlain then some (load (.cell (.indexed i)) (.place (.reg source))) else none
  | load (.cell (.pointed .hl)) .immediate => some (load (.cell (.indexed i)) .immediate)
  | arithmetic op (.place (.cell (.pointed .hl))) =>
    some (arithmetic op (.place (.cell (.indexed i))))
  | increment (.cell (.pointed .hl)) => some (increment (.cell (.indexed i)))
  | decrement (.cell (.pointed .hl)) => some (decrement (.cell (.indexed i)))
  | _ => none

namespace Machine

/-- The machine with another value of `hl`. -/
def withHl {M : Type} (m : Machine M) (w : UInt16) : Machine M :=
  m.mapRegisters (·.setWord .hl w)

section Displacement

variable {M : Type} (m : Machine M) (w : UInt16)

/-- What `hl` holds when it is set. -/
@[simp]
lemma word_withHl : (m.withHl w).registers.word .hl = w :=
  wordOf_bytes w

/-- A machine that had this value of `hl` is as it was when it has it again. -/
lemma withHl_withHl {w' : UInt16} (h : m.registers.word .hl = w') :
    (m.withHl w).withHl w' = m := by
  obtain ⟨registers, memory, board, isHalted⟩ := m
  subst h
  simp [withHl, mapRegisters, Registers.setWord, Registers.word, lowByte_wordOf, highByte_wordOf]

/-- A plain register while `hl` holds something else. -/
lemma byte_withHl {register : ByteReg} (h : register.isPlain = true) :
    (m.withHl w).registers.byte register = m.registers.byte register := by
  cases register with
  | h | l | half => cases h
  | _ => rfl

/-- A plain register that is set while `hl` holds something else. -/
lemma setByte_withHl {register : ByteReg} (h : register.isPlain = true) (v : UInt8) :
    (m.withHl w).mapRegisters (·.setByte register v) =
      (m.mapRegisters (·.setByte register v)).withHl w := by
  cases register with
  | h | l | half => cases h
  | _ => rfl

/-- A plain register that is set leaves `hl` alone. -/
lemma word_setByte {register : ByteReg} (h : register.isPlain = true) (v : UInt8) :
    (m.mapRegisters (·.setByte register v)).registers.word .hl = m.registers.word .hl := by
  cases register with
  | h | l | half => cases h
  | _ => rfl

/-- The operation of the accumulator with a byte while `hl` holds something else. -/
lemma arithmetic_withHl (op : Arithmetic) (v : UInt8) :
    (m.withHl w).arithmetic op v = (m.arithmetic op v).withHl w := rfl

variable [Bus M]

/-- A byte in memory while `hl` holds something else. -/
lemma read_withHl (address : UInt16) : (m.withHl w).read address = m.read address := rfl

/-- A byte that is written while `hl` holds something else. -/
lemma write_withHl (address : UInt16) (v : UInt8) :
    (m.withHl w).write address v = (m.write address v).withHl w := rfl

/-- The result of an operation on a memory cell while `hl` holds its address. -/
lemma putResult_withHl (plain operands : Operands) {i : Index} (result : UInt8 × Flags)
    (h : m.registers.index i + operands.displacement = w) :
    (m.withHl w).putResult plain (.cell (.pointed .hl)) result =
      (m.putResult operands (.cell (.indexed i)) result).withHl w := by
  have hpointed : ((m.withHl w).mapRegisters (·.setFlags result.2)).registers.word .hl = w :=
    m.word_withHl w
  have hindexed : (m.mapRegisters (·.setFlags result.2)).registers.index i +
      operands.displacement = w := by
    rw [← h]
    cases i <;> rfl
  simp only [putResult, put, Cell.address, hpointed, hindexed]
  rfl

end Displacement

variable {M : Type} [Bus M]

/-- An operation on the cell at `hl` does what it does with the indexed cell in its place, while
`hl` holds the address of that cell. -/
lemma execute_withHl (m : Machine M) {i : Index} {op displaced : Operation}
    (h : op.displaced? i = some displaced) (operands : Operands) (next : UInt16) {w : UInt16}
    (hw : m.registers.index i + operands.displacement = w) :
    (m.withHl w).execute op { operands with displacement := 0 } next =
      (m.execute displaced operands next).map (·.withHl w) := by
  unfold Operation.displaced? at h
  split at h
  -- a load from the cell
  · split at h
    · next hplain =>
      cases h
      simp only [execute, map_passOn, byteFrom, get, put, Cell.address, word_withHl, read_withHl,
        setByte_withHl _ _ hplain, hw]
    · cases h
  -- a load of the cell
  · split at h
    · next hplain =>
      cases h
      simp only [execute, map_passOn, byteFrom, get, put, Cell.address, word_withHl, write_withHl,
        byte_withHl _ _ hplain, hw]
    · cases h
  · cases h
    simp only [execute, map_passOn, byteFrom, put, Cell.address, word_withHl, write_withHl, hw]
  · cases h
    simp only [execute, map_passOn, byteFrom, get, Cell.address, word_withHl, read_withHl,
      arithmetic_withHl, hw]
  -- the cell counted up and down
  · cases h
    simp only [execute, map_passOn, get, Cell.address, word_withHl, read_withHl,
      putResult_withHl _ _ _ _ _ hw, hw]
    rfl
  · cases h
    simp only [execute, map_passOn, get, Cell.address, word_withHl, read_withHl,
      putResult_withHl _ _ _ _ _ hw, hw]
    rfl
  · cases h

/-- An operation with an indexed cell leaves `hl` and the index register alone. -/
lemma kept_execute_displaced (m : Machine M) {i : Index} {op displaced : Operation}
    (h : op.displaced? i = some displaced) (operands : Operands) (next : UInt16) :
    (m.execute displaced operands next).machine.registers.word .hl = m.registers.word .hl ∧
      i.part.Kept m (m.execute displaced operands next).machine := by
  have hflags : i.part ∉ [Part.flags] := by
    cases i <;> decide
  suffices hchanges : (m.execute displaced operands next).machine.registers.word .hl =
      m.registers.word .hl ∧ i.part ∉ displaced.changes from
    ⟨hchanges.1, m.kept_execute operands next hchanges.2⟩
  unfold Operation.displaced? at h
  split at h
  · split at h
    · next target hplain =>
      cases h
      refine ⟨m.word_setByte hplain _, ?_⟩
      cases target with
      | h | l | half => cases hplain
      | _ => exact List.not_mem_nil
    · cases h
  · split at h
    · cases h
      exact ⟨rfl, List.not_mem_nil⟩
    · cases h
  · cases h
    exact ⟨rfl, List.not_mem_nil⟩
  · cases h
    exact ⟨rfl, hflags⟩
  · cases h
    exact ⟨rfl, hflags⟩
  · cases h
    exact ⟨rfl, hflags⟩
  · cases h

/-- **An operation with an indexed cell does what it does with the cell at `hl`**, while `hl` holds
the address of the indexed cell. -/
theorem execute_displaced (m : Machine M) {i : Index} {op displaced : Operation}
    (h : op.displaced? i = some displaced) (operands : Operands) (next : UInt16) :
    m.execute displaced operands next =
      ((m.withHl (m.registers.index i + operands.displacement)).execute op
        { operands with displacement := 0 } next).map (·.withHl (m.registers.word .hl)) := by
  rw [m.execute_withHl h operands next rfl]
  refine congrArg (fun machine => ({ m.execute displaced operands next with machine } : Outcome M))
    (withHl_withHl _ _ ?_).symm
  exact (m.kept_execute_displaced h operands next).1

end Machine

/-! ### Operand bytes -/

namespace Operation

variable {i : Index} {op form : Operation} (read : UInt16 → UInt8) (address : UInt16)

/-- An operation on registers fetches the same with others. -/
lemma fetch_exchanged (h : op.exchanged? i = some form) :
    form.fetch read address = op.fetch read address := by
  unfold exchanged? at h
  split at h <;> cases h <;> try rfl
  next source =>
    cases source <;> rfl

/-- An operation with an indexed cell fetches the displacement, and then what the one on the cell at
`hl` fetches. -/
lemma fetch_displaced (h : op.displaced? i = some form) :
    form.fetch read address =
      ({ (op.fetch read (address + 1)).1 with displacement := signExtend (read address) },
        (op.fetch read (address + 1)).2) ∧
      (op.fetch read (address + 1)).1.displacement = 0 := by
  unfold displaced? at h
  split at h
  case h_1 | h_2 =>
    split at h <;> cases h
    exact ⟨rfl, rfl⟩
  case h_7 => cases h
  all_goals
    cases h
    exact ⟨rfl, rfl⟩

end Operation

namespace Machine

variable {M : Type} [Bus M]

/-- An operation on registers where its operand bytes start, between two exchanges. -/
lemma executeAt_exchanged (m : Machine M) {i : Index} {op form : Operation}
    (h : op.exchanged? i = some form) (address : UInt16) :
    m.executeAt form address =
      let (outcome, behind) := (m.exchangeIndex i).executeAt op address
      (outcome.map (·.exchangeIndex i), behind) := by
  have hread : (m.exchangeIndex i).read = m.read := rfl
  simp only [executeAt, hread, Operation.fetch_exchanged m.read address h,
    m.execute_exchanged h, Outcome.map, exchangeIndex_exchangeIndex]

/-- An operation with an indexed cell where its operand bytes start, while `hl` holds the address of
that cell. -/
lemma executeAt_displaced (m : Machine M) {i : Index} {op form : Operation}
    (h : op.displaced? i = some form) (address : UInt16) :
    m.executeAt form address =
      let cell := m.registers.index i + signExtend (m.read address)
      let (outcome, behind) := (m.withHl cell).executeAt op (address + 1)
      (outcome.map (·.withHl (m.registers.word .hl)), behind) := by
  obtain ⟨hfetch, hzero⟩ := Operation.fetch_displaced m.read address h
  have hread (w : UInt16) : (m.withHl w).read = m.read := rfl
  simp only [executeAt, hread, hfetch, m.execute_displaced h, ← hzero]

end Machine

/-! ### The instructions behind an index prefix -/

/-- Whether an operand of a template is indexed. -/
def Template.hasIndexed (template : Template) : Bool :=
  template.slots.any fun
    | .indexed _ => true
    | _ => false

/-- The loads between an indexed cell and a half of `hl`, which is not renamed in them. -/
def Template.halfLoads (i : Index) : List Template :=
  [⟨.ld, [.named "h", .indexed i]⟩, ⟨.ld, [.named "l", .indexed i]⟩,
    ⟨.ld, [.indexed i, .named "h"]⟩, ⟨.ld, [.indexed i, .named "l"]⟩]

namespace Operation

/-- Whether the operation of an opcode behind an index prefix has the form that its template
says. -/
def hasIndexForm (i : Index) (d : Descriptor) : Bool :=
  match index i d.byte, main d.byte with
  | some form, some op =>
    if d.template.hasIndexed then d.template ∈ Template.halfLoads i || op.displaced? i = some form
    else op.exchanged? i = some form
  | _, _ => false

/-- **Each instruction behind an index prefix is one without it**, with the index register or the
indexed cell in the place of `hl`. -/
theorem indexForm_of_mem_all {d : Descriptor} (hd : d ∈ Descriptor.all) {i : Index}
    (hspace : d.space = .index i) :
    ∃ form op, ofOpcode? d.space d.byte = some form ∧ ofOpcode? .main d.byte = some op ∧
      (d.template.hasIndexed = false → op.exchanged? i = some form) ∧
      (d.template.hasIndexed = true → d.template ∉ Template.halfLoads i →
        op.displaced? i = some form) := by
  have key := Descriptor.of_mem_all (P := fun d => !decide (d.space = .index i) || hasIndexForm i d)
    (by cases i <;> decide +kernel) hd
  simp only [hspace, decide_true, Bool.not_true, Bool.false_or, hasIndexForm] at key
  split at key
  · next form op hform hop =>
    refine ⟨form, op, hspace ▸ hform, hop, fun hindexed => ?_, fun hindexed hhalf => ?_⟩
    · simpa [hindexed] using key
    · simpa [hindexed, hhalf] using key
  · cases key

end Operation

namespace Machine

variable {M : Type} [Bus M]

/-- **Index registers take the place of `hl`.**  An instruction behind the prefix of an index
register is performed by executing its operation where its operand bytes start.  Without an indexed
operand that does what the instruction of the same opcode without the prefix does while `hl` and the
index register are exchanged.  With one, and unless it is a load between the cell and `h` or `l`, it
does what that instruction does behind the displacement while `hl` holds the address of the cell,
and the index register keeps its value.  Control goes the same way, the same operand bytes are used
up, and the same events are raised.

**Proof sketch.** Opcode by opcode the two operations differ only in that the names of the two
registers are exchanged, or the cell at `hl` is replaced by the indexed cell.  What an operation
does to registers that are exchanged is what it does, exchanged, with the other names. -/
theorem index_form {d : Descriptor} (hd : d ∈ Descriptor.all) {i : Index}
    (hspace : d.space = .index i) :
    ∃ form op, Operation.ofOpcode? (.index i) d.byte = some form ∧
      Operation.ofOpcode? .main d.byte = some op ∧ ∀ m : Machine M,
        (∀ address, m.perform d address =
          let (outcome, behind) := m.executeAt form (address + 2)
          let (after, report) := finish outcome address behind
          (after, .ok report)) ∧
        (d.template.hasIndexed = false → ∀ address,
          m.executeAt form address =
            let (outcome, behind) := (m.exchangeIndex i).executeAt op address
            (outcome.map (·.exchangeIndex i), behind)) ∧
        (d.template.hasIndexed = true → d.template ∉ Template.halfLoads i → ∀ address,
          (m.executeAt form address =
            let cell := m.registers.index i + signExtend (m.read address)
            let (outcome, behind) := (m.withHl cell).executeAt op (address + 1)
            (outcome.map (·.withHl (m.registers.word .hl)), behind)) ∧
          (m.executeAt form address).1.machine.registers.index i = m.registers.index i) := by
  obtain ⟨form, op, hform, hop, hregisters, hcell⟩ := Operation.indexForm_of_mem_all hd hspace
  refine ⟨form, op, hspace ▸ hform, hop, fun m => ⟨fun address => ?_, fun hindexed address => ?_,
    fun hindexed hhalf address => ⟨?_, ?_⟩⟩⟩
  · rw [m.perform_eq_executeAt hform hspace hd address, hspace]
    rfl
  · exact m.executeAt_exchanged (hregisters hindexed) address
  · exact m.executeAt_displaced (hcell hindexed hhalf) address
  · have hkept := (m.kept_execute_displaced (hcell hindexed hhalf)
      (form.fetch m.read address).1 (form.fetch m.read address).2).2
    cases i <;> exact hkept

/-- A load from an indexed cell is the load from the cell at `hl`. -/
theorem index_form_load :
    ∃ form op, Operation.ofOpcode? (.index .ix) 0x7E = some form ∧
      Operation.ofOpcode? .main 0x7E = some op ∧ ∀ m : Machine Memory,
        m.executeAt form 2 =
          let cell := m.registers.ix + signExtend (m.read 2)
          let (outcome, behind) := (m.withHl cell).executeAt op 3
          (outcome.map (·.withHl (m.registers.word .hl)), behind) := by
  obtain ⟨d, hd⟩ := Option.isSome_iff_exists.1
    (by decide +kernel : (Descriptor.lookup? (.index .ix) 0x7E).isSome = true)
  have htemplate : (Descriptor.lookup? (.index .ix) 0x7E).map (fun d =>
      (d.template.hasIndexed, decide (d.template ∈ Template.halfLoads .ix))) =
        some (true, false) := by
    decide +kernel
  obtain ⟨hspace, hbyte⟩ := Descriptor.of_lookup? hd
  rw [hd, Option.map_some, Option.some.injEq, Prod.mk.injEq, decide_eq_false_iff_not] at htemplate
  obtain ⟨form, op, hform, hop, hforms⟩ := index_form (M := Memory)
    (Descriptor.mem_all_iff.2 (by rw [hspace, hbyte, hd])) hspace
  rw [hbyte] at hform hop
  exact ⟨form, op, hform, hop, fun m => ((hforms m).2.2 htemplate.1 htemplate.2 2).1⟩

end Machine

end Z80
