import Z80.Proofs.Disassembly.Lines
import Z80.Proofs.Disassembly.Traversal

/-!
# Lines, instructions and bytes

The lines of a disassembly stand one behind the other and show each byte of the buffer, and each
instruction that was traced has a line.  Only in a buffer of all addresses an instruction may run
over the last byte and on to the first; its line then shows bytes that other lines show as well.

## Main definitions

* `Z80.Disassembly.Line.Belongs` — a line of a traced buffer.
* `Z80.Disassembly.LaidOut` — the lines between two offsets of a buffer.
* `Z80.Disassembly.Abut` — lines that stand one behind the other.

## Main results

* `Z80.Disassembly.laidOut_ofBuffer` — the lines of a disassembly.
* `Z80.Disassembly.LaidOut.exists_line` — each instruction that was found has a line.
* `Z80.Disassembly.traversal_sound_closed` — what the instruction lines are.
* `Z80.Disassembly.lines_cover` — which bytes the lines show.

## Design

Lines are followed by the offsets of their first bytes and not by their addresses, since the offset
behind the last line may be past the end of the buffer.
-/

namespace Z80

variable {buffer : Buffer}

/-! ### Offsets -/

namespace Buffer

/-- The offset of an address is that of the byte there. -/
lemma offset_addressOf {off : Nat} (hoff : off < addressCount) :
    buffer.offset (buffer.addressOf off) = off := by
  have hsub : buffer.base + UInt16.ofNat off - buffer.base = UInt16.ofNat off := by grind
  rw [offset, addressOf, hsub, UInt16.toNat_ofNat_of_lt' hoff]

/-- An address is behind the first one by its offset. -/
lemma addressOf_offset (a : UInt16) : buffer.addressOf (buffer.offset a) = a := by
  rw [addressOf, offset, UInt16.ofNat_toNat]
  grind

/-- The offset of an address is that of a byte, if it is in the buffer. -/
lemma offset_lt_size {a : UInt16} (h : buffer.contains a) : buffer.offset a < buffer.size := by
  rwa [contains, decide_eq_true_iff] at h

/-- The first offset is that of the first byte. -/
lemma addressOf_zero : buffer.addressOf 0 = buffer.base :=
  UInt16.add_zero _

/-- As many bytes are in the buffer as there are addresses for. -/
lemma size_ofList_take (base : UInt16) (bytes : List UInt8) :
    (ofList base bytes).size = (bytes.take addressCount).length := by
  rw [size, ofList, List.size_toArray]

/-- The first bytes of a buffer, up to any number of them. -/
lemma readBytes_ofList_take {base : UInt16} {bytes : List UInt8} {n : Nat}
    (hn : n ≤ (bytes.take addressCount).length) :
    readBytes (ofList base bytes).read base n = bytes.take n := by
  have hwhole := @readBytes_ofList base (bytes.take addressCount) (List.length_take_le ..)
  have hsame : ofList base (bytes.take addressCount) = ofList base bytes := by
    simp only [ofList, List.take_take, Nat.min_self]
  have hle : n ≤ addressCount := Nat.le_trans hn (List.length_take_le ..)
  rw [hsame, ← Nat.add_sub_cancel' hn, readBytes_add] at hwhole
  have hfront := congrArg (List.take n) hwhole
  rwa [List.take_left' (length_readBytes ..), List.take_take, Nat.min_eq_left hle] at hfront

end Buffer

namespace Disassembly

variable {options : Options} {trace : Trace} {width : Nat}

/-! ### One line -/

/-- A line of a traced buffer shows the bytes at its address, and at least one: a number of bytes
that is limited, as data, or an instruction that was found. -/
structure Line.Belongs (line : Line) (trace : Trace) (buffer : Buffer) (width : Nat) : Prop where
  bytes_eq : readBytes buffer.read line.address line.bytes.length = line.bytes
  ne_nil : line.bytes ≠ []
  origin : (line.isData = true ∧ line.bytes.length ≤ width) ∨
    (line.isData = false ∧ ∃ i, trace.Finds i ∧ i.address = line.address ∧ i.bytes = line.bytes)

/-- Bytes of data do not go on where an instruction starts. -/
lemma endsData_of_lt_dataLength {useLabels : Bool} {address : UInt16} {more n : Nat}
    (h : n < dataLength useLabels trace address more) :
    endsData useLabels trace (address + UInt16.ofNat n) = false := by
  induction more generalizing address n with
  | zero => simp [dataLength] at h
  | succ more ih =>
    rw [dataLength] at h
    split at h
    · simp at h
    · next hends =>
      cases n with
      | zero => simpa using hends
      | succ n =>
        rw [add_ofNat_succ]
        exact ih (by omega)

/-- **The line at an offset** belongs to the buffer; data end in front of the end; an instruction
that starts at the offset is that of the line, and none starts at another byte of the line. -/
lemma lineAt_spec (hmarked : trace.Marked buffer) {off : Nat} (hoff : off < buffer.size) :
    let line := lineAt options buffer trace (buffer.addressOf off) (buffer.size - off)
    line.address = buffer.addressOf off ∧ line.Belongs trace buffer (max 1 options.dataWidth) ∧
      (line.isData = true → off + line.bytes.length ≤ buffer.size) ∧
      ∀ i, trace.Finds i → off ≤ buffer.offset i.address →
        (line.isData = false ∧ line.address = i.address ∧ line.bytes = i.bytes) ∨
          off + line.bytes.length ≤ buffer.offset i.address := by
  have hlt : off < addressCount := Nat.lt_of_lt_of_le hoff buffer.size_le
  simp only [lineAt]
  split
  · next i text hmark =>
    obtain ⟨hi, haddress⟩ := hmarked.finds_of_start hmark
    have hdecode := hmarked.decode?_eq hi
    have hbytes := Buffer.bytes_of_decode? hdecode
    refine ⟨rfl, ⟨haddress ▸ hbytes, ?_, .inr ⟨rfl, i, hi, haddress, rfl⟩⟩, by simp,
      fun j hj hle => ?_⟩
    · exact List.length_pos_iff.1 (Buffer.size_pos_of_decode? hdecode)
    · -- an instruction that starts at one of the bytes shares it with this one
      by_cases hinside : buffer.offset j.address < off + i.bytes.length
      · have hshared : j.address ∈ i.span := by
          refine mem_addressesFrom.2 ⟨buffer.offset j.address - off, ?_, ?_⟩
          · rw [Instruction.size]
            omega
          · rw [haddress, ← Buffer.addressOf_add, Nat.add_sub_cancel' hle,
              Buffer.addressOf_offset]
        obtain rfl := hmarked.disjoint hi hj j.address hshared
          (Buffer.address_mem_span (hmarked.decode?_eq hj))
        exact .inl ⟨rfl, haddress.symm, rfl⟩
      · exact .inr (Nat.le_of_not_lt hinside)
  · next hmark =>
    have hle := dataLength_le options.useLabels trace (buffer.addressOf off + 1)
      (min (options.dataWidth - 1) (buffer.size - off - 1))
    refine ⟨rfl, ⟨?_, ?_, .inl ⟨rfl, ?_⟩⟩, fun _ => ?_, fun i hi hlow => .inr ?_⟩
    all_goals simp only [dataLine, length_readBytes]
    · exact List.cons_ne_nil _ _
    · omega
    · omega
    · by_contra hhigh
      obtain ⟨text, hi⟩ := hi
      rcases Nat.eq_or_lt_of_le hlow with heq | hbehind
      · rw [heq, Buffer.addressOf_offset] at hmark
        exact hmark i text hi
      · -- data would have ended in front of the instruction
        have hends := @endsData_of_lt_dataLength trace options.useLabels (buffer.addressOf off + 1)
          (min (options.dataWidth - 1) (buffer.size - off - 1))
          (buffer.offset i.address - off - 1) (by omega)
        rw [← add_ofNat_succ, ← Buffer.addressOf_add,
          show off + (buffer.offset i.address - off - 1 + 1) = buffer.offset i.address by omega,
          Buffer.addressOf_offset, endsData, hi] at hends
        simp at hends

/-! ### All lines -/

/-- The lines of a traced buffer from one offset to another, which is not in front of the end. -/
inductive LaidOut (trace : Trace) (buffer : Buffer) (width : Nat) : Nat → List Line → Nat → Prop
  | nil {off : Nat} (hend : buffer.size ≤ off) : LaidOut trace buffer width off [] off
  | cons {off last : Nat} {line : Line} {lines : List Line} (hoff : off < buffer.size)
      (haddress : line.address = buffer.addressOf off) (hline : line.Belongs trace buffer width)
      (hdata : line.isData = true → off + line.bytes.length ≤ buffer.size)
      (hfound : ∀ i, trace.Finds i → off ≤ buffer.offset i.address →
        (line.isData = false ∧ line.address = i.address ∧ line.bytes = i.bytes) ∨
          off + line.bytes.length ≤ buffer.offset i.address)
      (hmore : LaidOut trace buffer width (off + line.bytes.length) lines last) :
      LaidOut trace buffer width off (line :: lines) last

/-- The lines of a disassembly from an offset on. -/
lemma laidOut_linesFrom (hmarked : trace.Marked buffer) {rounds off : Nat}
    (hrounds : buffer.size - off ≤ rounds) :
    ∃ last, LaidOut trace buffer (max 1 options.dataWidth) off
      (linesFrom options buffer trace rounds (buffer.addressOf off) (buffer.size - off)) last := by
  induction rounds generalizing off with
  | zero =>
    have hzero : buffer.size - off = 0 := by omega
    rw [hzero, linesFrom]
    exact ⟨off, .nil (by omega)⟩
  | succ rounds ih =>
    cases hleft : buffer.size - off with
    | zero =>
      rw [linesFrom]
      exact ⟨off, .nil (by omega)⟩
    | succ left =>
      have hoff : off < buffer.size := by omega
      obtain ⟨haddress, hline, hdata, hfound⟩ := @lineAt_spec buffer options trace hmarked off hoff
      have hpos := List.length_pos_iff.2 hline.ne_nil
      obtain ⟨last, hmore⟩ := @ih (off + (lineAt options buffer trace (buffer.addressOf off)
        (buffer.size - off)).bytes.length) (by omega)
      rw [Buffer.addressOf_add, Nat.sub_add_eq] at hmore
      rw [hleft] at haddress hline hdata hfound hmore
      exact ⟨last, .cons hoff haddress hline hdata hfound hmore⟩

/-- **The lines of a disassembly** show the buffer from its first byte on. -/
theorem laidOut_ofBuffer (options : Options) (buffer : Buffer) :
    ∃ last, LaidOut (Trace.run options.useLabels buffer (roots options buffer)) buffer
      (max 1 options.dataWidth) 0 (ofBuffer options buffer).lines last := by
  have hmarked := (Trace.explored_run options.useLabels buffer (roots options buffer)).1.marked
  obtain ⟨last, hlines⟩ := @laidOut_linesFrom buffer options _ hmarked buffer.size 0 (by omega)
  rw [Buffer.addressOf_zero, Nat.sub_zero] at hlines
  exact ⟨last, hlines⟩

/-- Lines that stand one behind the other, the first of them at an address. -/
def Abut (address : UInt16) : List Line → Prop
  | [] => True
  | line :: more =>
    line.address = address ∧ Abut (address + UInt16.ofNat line.bytes.length) more

namespace LaidOut

variable {off last : Nat} {lines : List Line}

/-- The lines end behind the offset at which they start. -/
lemma le_last (h : LaidOut trace buffer width off lines last) :
    off ≤ last ∧ buffer.size ≤ last := by
  induction h with
  | nil hend => exact ⟨Nat.le_refl _, hend⟩
  | cons _ _ _ _ _ _ ih => exact ⟨by omega, ih.2⟩

/-- The lines stand one behind the other. -/
lemma abut (h : LaidOut trace buffer width off lines last) : Abut (buffer.addressOf off) lines := by
  induction h with
  | nil => trivial
  | cons _ haddress _ _ _ _ ih =>
    rw [Buffer.addressOf_add] at ih
    exact ⟨haddress, ih⟩

/-- **The bytes of the lines are those of the buffer**, from one offset to the other. -/
theorem flatMap_bytes (h : LaidOut trace buffer width off lines last) :
    lines.flatMap Line.bytes = readBytes buffer.read (buffer.addressOf off) (last - off) := by
  induction h with
  | nil => rw [Nat.sub_self]; rfl
  | @cons off last line lines _ haddress hline _ _ hmore ih =>
    have hlast := hmore.le_last.1
    rw [List.flatMap_cons, ih, ← hline.bytes_eq, length_readBytes, haddress, Buffer.addressOf_add,
      ← readBytes_add]
    congr 1
    omega

/-- A line stands at an offset of the buffer, and ends where or in front of where the last does. -/
lemma exists_offset (h : LaidOut trace buffer width off lines last) {line : Line}
    (hline : line ∈ lines) :
    line.Belongs trace buffer width ∧
      ∃ n, n < buffer.size ∧ line.address = buffer.addressOf n ∧ n + line.bytes.length ≤ last := by
  induction h with
  | nil => simp at hline
  | cons hoff haddress hfirst _ _ hmore ih =>
    rcases List.mem_cons.1 hline with rfl | hmem
    · exact ⟨hfirst, _, hoff, haddress, hmore.le_last.1⟩
    · exact ih hmem

/-- **Each instruction that was found has a line**, if it starts behind the offset. -/
theorem exists_line (h : LaidOut trace buffer width off lines last) {i : Instruction}
    (hi : trace.Finds i) (hlow : off ≤ buffer.offset i.address)
    (hhigh : buffer.offset i.address < buffer.size) :
    ∃ line ∈ lines, line.isData = false ∧ line.address = i.address ∧ line.bytes = i.bytes := by
  induction h with
  | nil hend => omega
  | cons _ _ _ _ hfound _ ih =>
    rcases hfound i hi hlow with hline | hbehind
    · exact ⟨_, List.mem_cons_self, hline⟩
    · obtain ⟨line, hmem, hline⟩ := ih hbehind
      exact ⟨line, List.mem_cons_of_mem _ hmem, hline⟩

/-- Lines that end past the end of the buffer end with an instruction. -/
lemma exists_last (h : LaidOut trace buffer width off lines last) (hoff : off ≤ buffer.size)
    (hlast : buffer.size < last) :
    ∃ line ∈ lines, line.isData = false ∧
      ∃ n, n < buffer.size ∧ line.address = buffer.addressOf n ∧
        n + line.bytes.length = last := by
  induction h with
  | nil => omega
  | @cons off last line lines hfirst haddress hline hdata _ hmore ih =>
    by_cases hinside : off + line.bytes.length ≤ buffer.size
    · obtain ⟨line', hmem, hfound⟩ := ih hinside hlast
      exact ⟨line', List.mem_cons_of_mem _ hmem, hfound⟩
    · -- a line that runs over the end is the last one
      have hend : off + line.bytes.length = last := by
        cases hmore with
        | nil => rfl
        | cons hbehind => omega
      refine ⟨line, List.mem_cons_self, ?_, off, hfirst, haddress, hend⟩
      rw [← Bool.not_eq_true]
      exact fun hisData => hinside (hdata hisData)

/-- The lines end with the buffer if none of the instructions goes on behind it. -/
lemma last_eq_size_iff (h : LaidOut trace buffer width 0 lines last) :
    last = buffer.size ↔ ∀ line ∈ lines, line.isData = false →
      buffer.offset line.address + line.bytes.length ≤ buffer.size := by
  have hoffset : ∀ n, n < buffer.size → buffer.offset (buffer.addressOf n) = n :=
    fun n hn => Buffer.offset_addressOf (Nat.lt_of_lt_of_le hn buffer.size_le)
  constructor
  · rintro hend line hmem -
    obtain ⟨-, n, hn, haddress, hle⟩ := h.exists_offset hmem
    rw [haddress, hoffset n hn, ← hend]
    exact hle
  · intro hall
    refine Nat.le_antisymm (Nat.le_of_not_lt fun hbehind => ?_) h.le_last.2
    obtain ⟨line, hmem, hdata, n, hn, haddress, hend⟩ := h.exists_last (Nat.zero_le _) hbehind
    have := hall line hmem hdata
    rw [haddress, hoffset n hn] at this
    omega

/-- Lines go on behind the end only of a full buffer, and at most by three bytes. -/
lemma full_of_size_lt (hmarked : trace.Marked buffer)
    (h : LaidOut trace buffer width 0 lines last) (hlast : buffer.size < last) :
    buffer.size = addressCount ∧ last ≤ buffer.size + 3 := by
  obtain ⟨line, hmem, hdata, n, hn, haddress, hend⟩ := h.exists_last (Nat.zero_le _) hlast
  rcases (h.exists_offset hmem).1.origin with ⟨hisData, -⟩ | ⟨-, i, hi, hi', hbytes⟩
  · simp [hdata] at hisData
  · have hdecode := hmarked.decode?_eq hi
    have hsize : i.size ≤ 4 := Buffer.size_le_of_decode? hdecode
    rw [← hbytes, ← Instruction.size] at hend
    refine ⟨Nat.le_antisymm buffer.size_le (Nat.le_of_not_lt fun hspare => ?_), by omega⟩
    have hinside := @Buffer.add_le_size buffer hspare n i.size (Nat.le_of_lt hn) fun a ha =>
      Buffer.contains_of_mem_span hdecode (by rwa [Instruction.span, hi', haddress])
    omega

end LaidOut

/-! ### What the lines are -/

/-- An instruction that was found has a line. -/
lemma exists_line_of_finds {options : Options} {buffer : Buffer} {i : Instruction}
    (hi : (Trace.run options.useLabels buffer (roots options buffer)).Finds i) :
    ∃ line ∈ (ofBuffer options buffer).instructions,
      line.address = i.address ∧ line.bytes = i.bytes := by
  have hmarked := (Trace.explored_run options.useLabels buffer (roots options buffer)).1.marked
  have hdecode := hmarked.decode?_eq hi
  have hinside := Buffer.contains_of_mem_span hdecode (Buffer.address_mem_span hdecode)
  obtain ⟨last, hlaid⟩ := laidOut_ofBuffer options buffer
  obtain ⟨line, hmem, hdata, hline⟩ :=
    hlaid.exists_line hi (Nat.zero_le _) (Buffer.offset_lt_size hinside)
  exact ⟨line, List.mem_filter.2 ⟨hmem, by simp [hdata]⟩, hline⟩

/-- **The bytes of the lines** are those of the buffer and, behind them, up to three of its first
ones again.  The latter come only in a full buffer, from an instruction that goes on behind it. -/
lemma exists_flatMap_bytes (options : Options) (bytes : List UInt8) :
    ∃ again ≤ 3,
      (disassemble options bytes).lines.flatMap Line.bytes =
        bytes.take addressCount ++ bytes.take again ∧
      (again = 0 ∨ addressCount ≤ bytes.length) ∧
      (again = 0 ↔ ∀ line ∈ (disassemble options bytes).instructions,
        (line.address - options.base).toNat + line.bytes.length ≤
          (bytes.take addressCount).length) := by
  obtain ⟨last, hlaid⟩ := laidOut_ofBuffer options (Buffer.ofList options.base bytes)
  have hmarked := (Trace.explored_run options.useLabels (Buffer.ofList options.base bytes)
    (roots options (Buffer.ofList options.base bytes))).1.marked
  have hle := hlaid.le_last.2
  have hfull := hlaid.full_of_size_lt hmarked
  have hend := hlaid.last_eq_size_iff
  have hbytes := hlaid.flatMap_bytes
  have hlength : (bytes.take addressCount).length = min addressCount bytes.length :=
    List.length_take
  rw [Buffer.size_ofList_take] at hle hfull hend
  obtain ⟨again, rfl⟩ := Nat.exists_eq_add_of_le hle
  refine ⟨again, by omega, ?_, by omega, ?_⟩
  · have hbase : (Buffer.ofList options.base bytes).base = options.base := rfl
    have hfirst : readBytes (Buffer.ofList options.base bytes).read options.base
        (bytes.take addressCount).length = bytes.take addressCount := by
      rw [Buffer.readBytes_ofList_take (Nat.le_refl _), hlength, ← List.take_take,
        List.take_length]
    rw [disassemble, hbytes, Buffer.addressOf_zero, Nat.sub_zero, hbase, readBytes_add, hfirst]
    cases again with
    | zero => rw [readBytes, List.take_zero]
    | succ again =>
      -- behind the last address the first one comes again
      obtain ⟨hall, hthree⟩ := hfull (by omega)
      have hwrap : options.base + UInt16.ofNat addressCount = options.base := UInt16.add_zero _
      have hmany : 3 ≤ addressCount := by decide
      rw [hall, hwrap, Buffer.readBytes_ofList_take (by omega)]
  · have hzero : again = 0 ↔ (bytes.take addressCount).length + again =
        (bytes.take addressCount).length := by omega
    rw [hzero, hend]
    constructor
    · intro hall line hline
      obtain ⟨hmem, hkind⟩ := List.mem_filter.1 hline
      exact hall line hmem (by simpa using hkind)
    · intro hall line hmem hdata
      exact hall line (List.mem_filter.2 ⟨hmem, by simp [hdata]⟩)

/-- The lines show the buffer exactly if none of the instructions goes on behind its end. -/
lemma flatMap_bytes_eq_iff (options : Options) (bytes : List UInt8) :
    (disassemble options bytes).lines.flatMap Line.bytes = bytes.take addressCount ↔
      ∀ line ∈ (disassemble options bytes).instructions,
        (line.address - options.base).toNat + line.bytes.length ≤
          (bytes.take addressCount).length := by
  obtain ⟨again, -, hbytes, hfull, hend⟩ := exists_flatMap_bytes options bytes
  rw [← hend, hbytes, List.append_right_eq_self, List.take_eq_nil_iff]
  constructor
  · rintro (hzero | rfl)
    · exact hzero
    · exact hfull.resolve_right (by decide)
  · exact .inl

/-- The lines show more than the buffer if an instruction that was found goes on behind its end. -/
lemma flatMap_bytes_ne_of_finds {options : Options} {bytes : List UInt8} {i : Instruction}
    (hi : (Trace.run options.useLabels (Buffer.ofList options.base bytes)
      (roots options (Buffer.ofList options.base bytes))).Finds i)
    (hbehind : (bytes.take addressCount).length < (i.address - options.base).toNat + i.size) :
    (disassemble options bytes).lines.flatMap Line.bytes ≠ bytes.take addressCount := by
  intro hequal
  obtain ⟨line, hline, haddress, hbytes⟩ := exists_line_of_finds hi
  have hend := (flatMap_bytes_eq_iff options bytes).1 hequal line hline
  rw [haddress, hbytes, ← Instruction.size] at hend
  omega

/-- The bytes of a buffer that are all the same but the last. -/
lemma read_ofList_replicate {base : UInt16} {count : Nat} (hcount : count < addressCount)
    {off : Nat} (hoff : off ≤ count) (x y : UInt8) :
    (Buffer.ofList base (List.replicate count x ++ [y])).read (base + UInt16.ofNat off) =
      if off = count then y else x := by
  have hlength : (List.replicate count x ++ [y]).length ≤ addressCount := by
    rw [List.length_append, List.length_replicate]
    exact hcount
  have hsub : base + UInt16.ofNat off - base = UInt16.ofNat off := by grind
  rw [Buffer.read, Buffer.get?_ofList hlength, hsub,
    UInt16.toNat_ofNat_of_lt' (Nat.lt_of_le_of_lt hoff hcount)]
  split
  · next hlast => simp [hlast]
  · next hfront =>
    have hlt : off < count := by omega
    rw [List.getElem?_append_left (by simpa using hlt), List.getElem?_replicate_of_lt hlt,
      Option.getD_some]

/-- In a buffer of all addresses with the byte 3Eh at the last one and EDh at all others, nothing
decodes but the instruction of two bytes at the last one. -/
lemma exists_decode?_of_read (hread : ∀ a, buffer.read a = if a = 0xFFFF then 0x3E else 0xED)
    (hinside : ∀ a, buffer.contains a = true) :
    ∃ i : Instruction, i.address = 0xFFFF ∧ i.size = 2 ∧ buffer.decode? i.address = some i ∧
      ∀ a, a ≠ i.address → buffer.decode? a = none := by
  obtain ⟨d, hd, hsize⟩ : ∃ d, Descriptor.lookup? .main 0x3E = some d ∧ d.size = 2 :=
    ⟨_, rfl, rfl⟩
  refine ⟨⟨0xFFFF, readBytes buffer.read 0xFFFF d.size, d⟩, rfl, ?_, ?_, fun a ha => ?_⟩
  · rw [Instruction.size, length_readBytes, hsize]
  · have hmain : Space.startingAt buffer.read 0xFFFF = .main := by
      rw [Space.startingAt, hread]
      rfl
    have hopcode : Space.opcodeAt .main buffer.read 0xFFFF = 0x3E := hread _
    refine Buffer.decode?_eq_some_iff.2 ⟨?_, rfl, fun a _ => hinside a, rfl⟩
    rw [Descriptor.decode, hmain, hopcode, hd]
  · have hmisc : Space.startingAt buffer.read a = .misc := by
      rw [Space.startingAt, hread, if_neg ha]
      rfl
    have hnone : Descriptor.lookup? .misc (Space.opcodeAt .misc buffer.read a) = none := by
      rw [Space.opcodeAt, hread]
      split <;> rfl
    rw [Option.eq_none_iff_forall_ne_some]
    intro i hi
    have hdecode := (Buffer.decode?_eq_some_iff.1 hi).1
    simp only [Descriptor.decode, hmisc, hnone] at hdecode
    cases hdecode

/-- **The lines of a disassembly show the buffer.**  For all bytes, of which those count for which
there are addresses, and all options: each line shows at least one byte, and a line of data not
more than it may; the lines stand one behind the other, the first of them at the first address; and
their bytes are those of the buffer, exactly if no instruction goes on behind its end.  One that
does is in a full buffer, and up to three of the first bytes are then shown again.

**Proof sketch.** The lines go from the first byte on until none is left.  Data stop at the end, so
only an instruction can go on behind it, and its bytes are in the buffer only if the address behind
the last one is the first. -/
theorem lines_cover (options : Options) (bytes : List UInt8) :
    (∀ line ∈ (disassemble options bytes).lines, line.bytes ≠ [] ∧
      (line.isData = true → line.bytes.length ≤ max 1 options.dataWidth)) ∧
    Abut options.base (disassemble options bytes).lines ∧
    (∃ again ≤ 3, (again = 0 ∨ addressCount ≤ bytes.length) ∧
      (disassemble options bytes).lines.flatMap Line.bytes =
        bytes.take addressCount ++ bytes.take again) ∧
    ((disassemble options bytes).lines.flatMap Line.bytes = bytes.take addressCount ↔
      ∀ line ∈ (disassemble options bytes).instructions,
        (line.address - options.base).toNat + line.bytes.length ≤
          (bytes.take addressCount).length) := by
  obtain ⟨last, hlaid⟩ := laidOut_ofBuffer options (Buffer.ofList options.base bytes)
  obtain ⟨again, hthree, hbytes, hfull, -⟩ := exists_flatMap_bytes options bytes
  refine ⟨fun line hline => ?_, ?_, ⟨again, hthree, hfull, hbytes⟩, ?_⟩
  · obtain ⟨hbelongs, -⟩ := hlaid.exists_offset hline
    refine ⟨hbelongs.ne_nil, fun hdata => ?_⟩
    rcases hbelongs.origin with ⟨-, hlimit⟩ | ⟨hnone, -⟩
    · exact hlimit
    · simp [hdata] at hnone
  · have habut := hlaid.abut
    rwa [Buffer.addressOf_zero] at habut
  · exact flatMap_bytes_eq_iff options bytes

/-- **An instruction goes on behind the end** of a full buffer that holds its second byte at the
first address; the lines then show more than the buffer. -/
theorem flatMap_bytes_behind_end :
    (disassemble ⟨0, [0xFFFF], true, 8⟩ (List.replicate 65535 0xED ++ [0x3E])).lines.flatMap
      Line.bytes ≠ List.replicate 65535 0xED ++ [0x3E] := by
  have hlength : (List.replicate 65535 (0xED : UInt8) ++ [0x3E]).length = addressCount := by
    rw [List.length_append, List.length_replicate]
    rfl
  have hread : ∀ a, (Buffer.ofList 0 (List.replicate 65535 0xED ++ [0x3E])).read a =
      if a = 0xFFFF then 0x3E else 0xED := by
    intro a
    have hle : a.toNat ≤ 65535 := Nat.le_of_lt_succ a.toNat_lt
    have hat := @read_ofList_replicate 0 65535 (by decide) a.toNat hle 0xED 0x3E
    rw [UInt16.zero_add, UInt16.ofNat_toNat] at hat
    rw [hat]
    exact if_congr (UInt16.toNat_inj (b := 0xFFFF)) rfl rfl
  generalize List.replicate 65535 (0xED : UInt8) ++ [0x3E] = bytes at hlength hread ⊢
  have hinside : ∀ a, (Buffer.ofList 0 bytes).contains a = true := by
    intro a
    rw [Buffer.contains, Buffer.size_ofList (Nat.le_of_eq hlength), hlength, decide_eq_true_iff]
    exact (a - 0).toNat_lt
  obtain ⟨i, haddress, hsize, hdecode, honly⟩ := exists_decode?_of_read hread hinside
  have hroot : i.address ∈ roots ⟨0, [0xFFFF], true, 8⟩ (Buffer.ofList 0 bytes) :=
    List.mem_append_left _ (haddress ▸ List.mem_cons_self)
  have htake := List.take_of_length_le (Nat.le_of_eq hlength)
  have hmore := @flatMap_bytes_ne_of_finds ⟨0, [0xFFFF], true, 8⟩ bytes i
    (Trace.finds_root true hroot hdecode honly)
    (by rw [htake, hlength, haddress, hsize]; decide)
  rwa [htake] at hmore

end Disassembly

end Z80
