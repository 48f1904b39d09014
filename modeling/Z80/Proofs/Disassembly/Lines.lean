import Z80.Disassembly.Disassemble
import Z80.Proofs.Disassembly.Trace

/-!
# The lines of a disassembly

The lines of a disassembly stand one behind the other, from the first byte of the buffer to its
last, and each shows the bytes that are there.  Every label of the trace is shown once, on the line
of its address or else as a constant.

## Main definitions

* `Z80.Disassembly.Line.Stands` — a line that shows the bytes at its address.
* `Z80.Disassembly.CoversFrom` — lines from an offset to the end of a buffer.
* `Z80.Disassembly.names` — the names that a disassembly defines, with their addresses.
* `Z80.Disassembly.Shows` — a disassembly that shows a buffer under labels.

## Main results

* `Z80.Disassembly.coversFrom_linesFrom` — the lines of a disassembly cover the buffer.
* `Z80.Disassembly.mem_names_iff`, `Z80.Disassembly.nodup_names` — each label is defined once, as
  its address.
* `Z80.Disassembly.shows_ofBuffer` — the disassembly of a buffer shows the buffer.

## Design

That no two instructions overlap is not needed here: a line starts where the line in front of it
ends, whatever the trace has marked in between.
-/

namespace Z80

variable {buffer : Buffer}

/-! ### Offsets -/

namespace Buffer

/-- A buffer that is not full contains an offset only if it is in front of the end. -/
lemma contains_addressOf_iff (hsize : buffer.size < addressCount) {off : Nat}
    (hoff : off ≤ buffer.size) : buffer.contains (buffer.addressOf off) ↔ off < buffer.size := by
  have hlt : off < addressCount := by omega
  have hsub : buffer.base + UInt16.ofNat off - buffer.base = UInt16.ofNat off := by grind
  rw [contains, offset, addressOf, hsub, UInt16.toNat_ofNat_of_lt' hlt, decide_eq_true_iff]

/-- The address some bytes behind an offset. -/
lemma addressOf_add (off n : Nat) :
    buffer.addressOf (off + n) = buffer.addressOf off + UInt16.ofNat n := by
  rw [addressOf, addressOf, UInt16.ofNat_add, UInt16.add_assoc]

/-- Different offsets have different addresses. -/
lemma addressOf_inj (hsize : buffer.size < addressCount) {m n : Nat} (hm : m ≤ buffer.size)
    (hn : n ≤ buffer.size) (h : buffer.addressOf m = buffer.addressOf n) : m = n :=
  add_ofNat_inj (by omega) (by omega) h

/-- Bytes that are contained in a buffer that is not full end in front of its end. -/
lemma add_le_size (hsize : buffer.size < addressCount) {off n : Nat} (hoff : off ≤ buffer.size)
    (h : ∀ a ∈ addressesFrom (buffer.addressOf off) n, buffer.contains a) :
    off + n ≤ buffer.size := by
  by_contra hlt
  -- otherwise the address right behind the buffer is one of them
  have hmem : buffer.addressOf buffer.size ∈ addressesFrom (buffer.addressOf off) n := by
    refine mem_addressesFrom.2 ⟨buffer.size - off, by omega, ?_⟩
    rw [← addressOf_add]
    congr 1
    omega
  have hcontains := (contains_addressOf_iff hsize (Nat.le_refl _)).1 (h _ hmem)
  omega

end Buffer

/-! ### One line -/

namespace Disassembly

/-- A line that shows the bytes at its address: as data, or as the instruction that they are. -/
structure Line.Stands (line : Line) (labels : Labels) (buffer : Buffer) : Prop where
  bytes_eq : readBytes buffer.read line.address line.bytes.length = line.bytes
  ne_nil : line.bytes ≠ []
  label_eq : line.label = labels.find? line.address
  text_eq : (line.isData = true ∧ line.text = dataText line.bytes ∧
      ∃ comment, line.comment = some (Text.asciiText comment)) ∨
    (line.isData = false ∧ line.comment = none ∧ ∃ i : Instruction,
      buffer.decode? line.address = some i ∧ line.bytes = i.bytes ∧ labels.Spell i line.text)

variable {options : Options} {trace : Trace}

/-- A line of data is not longer than it may be. -/
lemma dataLength_le (useLabels : Bool) (trace : Trace) (address : UInt16) (more : Nat) :
    dataLength useLabels trace address more ≤ more := by
  induction more generalizing address with
  | zero => exact Nat.le_refl 0
  | succ more ih =>
    have hrest := ih (address + 1)
    unfold dataLength
    split <;> omega

/-- The lines of data stand where they are. -/
lemma stands_dataLine {labels : Labels} {address : UInt16} {count : Nat} (hcount : 0 < count)
    {label : Option String} (hlabel : label = labels.find? address) :
    (dataLine label address (readBytes buffer.read address count)).Stands labels buffer where
  bytes_eq := by
    show readBytes _ address (readBytes buffer.read address count).length = _
    rw [length_readBytes]
    rfl
  ne_nil := by
    show readBytes buffer.read address count ≠ []
    intro hnil
    have hlength := congrArg List.length hnil
    rw [length_readBytes] at hlength
    exact Nat.ne_of_gt hcount hlength
  label_eq := hlabel
  text_eq := .inl ⟨rfl, rfl, _, rfl⟩

/-- **The line at an offset stands there**, and it ends in front of the end of the buffer. -/
lemma stands_lineAt (hlabels : options.useLabels = true) (hsound : trace.Sound buffer)
    (hsize : buffer.size < addressCount) {off : Nat} (hoff : off < buffer.size) :
    (lineAt options buffer trace (buffer.addressOf off) (buffer.size - off)).Stands
        trace.labels buffer ∧
      off + (lineAt options buffer trace (buffer.addressOf off) (buffer.size - off)).bytes.length
        ≤ buffer.size ∧
      (lineAt options buffer trace (buffer.addressOf off) (buffer.size - off)).address =
        buffer.addressOf off := by
  have hlabel : labelAt options.useLabels trace (buffer.addressOf off) =
      trace.labels.find? (buffer.addressOf off) := by
    rw [labelAt, if_pos hlabels]
  unfold lineAt
  split
  · next i text hmark =>
    obtain ⟨hdecode, hspell⟩ := hsound.start hmark
    obtain ⟨-, -, hcontains, hbytes⟩ := Buffer.decode?_eq_some_iff.1 hdecode
    have hlength : i.bytes.length = i.descriptor.size := by rw [← hbytes, length_readBytes]
    refine ⟨⟨?_, ?_, hlabel, .inr ⟨rfl, rfl, i, hdecode, rfl, hspell⟩⟩, ?_, rfl⟩
    · show readBytes _ _ i.bytes.length = i.bytes
      rw [hlength, hbytes]
    · show i.bytes ≠ []
      intro hnil
      rw [hnil, Descriptor.size, List.length_nil] at hlength
      omega
    · show off + i.bytes.length ≤ _
      rw [hlength]
      exact Buffer.add_le_size hsize (Nat.le_of_lt hoff) hcontains
  · have hdata := dataLength_le options.useLabels trace (buffer.addressOf off + 1)
      (min (options.dataWidth - 1) (buffer.size - off - 1))
    refine ⟨stands_dataLine (Nat.succ_pos _) hlabel, ?_, rfl⟩
    show off + (readBytes buffer.read _ _).length ≤ _
    rw [length_readBytes]
    omega

/-! ### All lines -/

/-- Lines that stand one behind the other from an offset to the end of the buffer. -/
inductive CoversFrom (labels : Labels) (buffer : Buffer) : Nat → List Line → Prop
  | nil : CoversFrom labels buffer buffer.size []
  | cons {off : Nat} {line : Line} {lines : List Line}
      (haddress : line.address = buffer.addressOf off) (hline : line.Stands labels buffer)
      (hmore : CoversFrom labels buffer (off + line.bytes.length) lines) :
      CoversFrom labels buffer off (line :: lines)

/-- **The lines of a disassembly cover the buffer.** -/
theorem coversFrom_linesFrom (hlabels : options.useLabels = true) (hsound : trace.Sound buffer)
    (hsize : buffer.size < addressCount) {rounds off : Nat} (hoff : off ≤ buffer.size)
    (hrounds : buffer.size - off ≤ rounds) :
    CoversFrom trace.labels buffer off
      (linesFrom options buffer trace rounds (buffer.addressOf off) (buffer.size - off)) := by
  induction rounds generalizing off with
  | zero =>
    have hend : off = buffer.size := by omega
    rw [hend, Nat.sub_self, linesFrom]
    exact .nil
  | succ rounds ih =>
    by_cases hend : off = buffer.size
    · rw [hend, Nat.sub_self, linesFrom]
      exact .nil
    · obtain ⟨left, hleft⟩ : ∃ left, buffer.size - off = left + 1 :=
        ⟨buffer.size - off - 1, by omega⟩
      obtain ⟨hline, hlast, haddress⟩ :=
        @stands_lineAt buffer options trace hlabels hsound hsize off (by omega)
      have hpos := List.length_pos_iff.2 hline.ne_nil
      have hmore := ih hlast (by omega)
      rw [Buffer.addressOf_add, Nat.sub_add_eq] at hmore
      rw [hleft] at hline hpos hmore haddress ⊢
      exact .cons haddress hline hmore

namespace CoversFrom

variable {labels : Labels} {off : Nat} {lines : List Line}

/-- The lines start in front of the end. -/
lemma le_size (h : CoversFrom labels buffer off lines) : off ≤ buffer.size := by
  induction h with
  | nil => exact Nat.le_refl _
  | cons _ _ _ ih => omega

/-- A line stands behind the first of them. -/
lemma exists_offset (h : CoversFrom labels buffer off lines) {line : Line} (hline : line ∈ lines) :
    line.Stands labels buffer ∧
      ∃ n, off ≤ n ∧ n < buffer.size ∧ line.address = buffer.addressOf n := by
  induction h with
  | nil => simp at hline
  | @cons off first lines haddress hfirst hmore ih =>
    rcases List.mem_cons.1 hline with rfl | hmem
    · have hlast := hmore.le_size
      have hpos := List.length_pos_iff.2 hfirst.ne_nil
      exact ⟨hfirst, off, Nat.le_refl _, by omega, haddress⟩
    · obtain ⟨hstands, n, hlow, hhigh, heq⟩ := ih hmem
      exact ⟨hstands, n, by omega, hhigh, heq⟩

/-- **No two lines stand at the same address.** -/
theorem nodup_addresses (h : CoversFrom labels buffer off lines)
    (hsize : buffer.size < addressCount) : (lines.map Line.address).Nodup := by
  induction h with
  | nil => exact List.nodup_nil
  | @cons off first lines haddress hfirst hmore ih =>
    have hpos := List.length_pos_iff.2 hfirst.ne_nil
    have hlast := hmore.le_size
    rw [List.map_cons, List.nodup_cons]
    refine ⟨fun hmem => ?_, ih⟩
    obtain ⟨line, hline, heq⟩ := List.mem_map.1 hmem
    obtain ⟨-, n, hlow, hhigh, hn⟩ := hmore.exists_offset hline
    rw [hn, haddress] at heq
    have := Buffer.addressOf_inj hsize (Nat.le_of_lt hhigh) (by omega) heq
    omega

end CoversFrom

/-! ### Names -/

/-- The labels that lines show, with the addresses of these lines. -/
def shown (lines : List Line) : List (String × UInt16) :=
  lines.filterMap fun line => line.label.map fun name => (name, line.address)

/-- The names that a disassembly defines, with their addresses. -/
def names (d : Disassembly) : List (String × UInt16) :=
  d.constants ++ shown d.lines

/-- An address is marked if it is that of a line. -/
lemma get_onLine (lines : List Line) (m : AddressMap Bool) (a : UInt16) :
    (lines.foldl (fun m line => m.set line.address true) m).get a =
      (decide (a ∈ lines.map Line.address) || m.get a) := by
  induction lines generalizing m with
  | nil => simp
  | cons line lines ih =>
    rw [List.foldl_cons, ih, AddressMap.get_set, List.map_cons]
    by_cases heq : line.address = a
    · simp [heq]
    · simp [heq, Ne.symm heq]

/-- A constant is a label of an address at which no line stands. -/
lemma mem_constantsOf_iff {lines : List Line} {entry : String × UInt16} :
    entry ∈ constantsOf true trace lines ↔
      entry.2 ∉ lines.map Line.address ∧ trace.labels.find? entry.2 = some entry.1 := by
  obtain ⟨name, address⟩ := entry
  simp only [constantsOf, List.mem_filterMap, get_onLine, AddressMap.get_fill, Bool.or_false,
    decide_eq_true_eq]
  constructor
  · rintro ⟨a, -, h⟩
    split at h
    · simp at h
    · next hmem =>
      obtain ⟨found, hfound, heq⟩ := Option.map_eq_some_iff.1 h
      obtain ⟨rfl, rfl⟩ := Prod.mk.inj heq
      exact ⟨hmem, by simpa [labelAt] using hfound⟩
  · rintro ⟨hmem, hfound⟩
    refine ⟨address, mem_allAddresses address, ?_⟩
    rw [if_neg hmem, labelAt, if_pos rfl, hfound]
    rfl

/-- No address has two constants. -/
lemma nodup_constantsOf (trace : Trace) (lines : List Line) :
    (constantsOf true trace lines).Nodup := by
  refine List.Nodup.filterMap (fun a b entry ha hb => ?_) nodup_allAddresses
  have key : ∀ {c : UInt16}, entry ∈ (if (lines.foldl (fun m line => m.set line.address true)
      (AddressMap.fill false)).get c then none
        else (labelAt true trace c).map fun name => (name, c)) → entry.2 = c := by
    intro c hc
    split at hc
    · simp at hc
    · obtain ⟨name, -, rfl⟩ := Option.map_eq_some_iff.1 hc
      rfl
  exact (key ha).symm.trans (key hb)

section Names

variable {labels : Labels} {off : Nat} {lines : List Line}

/-- A label that is shown is that of the address of a line. -/
lemma mem_shown_iff (h : CoversFrom labels buffer off lines) {entry : String × UInt16} :
    entry ∈ shown lines ↔
      entry.2 ∈ lines.map Line.address ∧ labels.find? entry.2 = some entry.1 := by
  obtain ⟨name, address⟩ := entry
  rw [shown, List.mem_filterMap, List.mem_map]
  constructor
  · rintro ⟨line, hline, heq⟩
    obtain ⟨found, hfound, heq⟩ := Option.map_eq_some_iff.1 heq
    obtain ⟨rfl, rfl⟩ := Prod.mk.inj heq
    exact ⟨⟨line, hline, rfl⟩, (h.exists_offset hline).1.label_eq ▸ hfound⟩
  · rintro ⟨⟨line, hline, rfl⟩, hfound⟩
    refine ⟨line, hline, ?_⟩
    rw [(h.exists_offset hline).1.label_eq, hfound]
    rfl

/-- **The names that a disassembly defines are the labels of the trace.** -/
theorem mem_names_iff (h : CoversFrom trace.labels buffer off lines) {entry : String × UInt16} :
    entry ∈ constantsOf true trace lines ++ shown lines ↔
      trace.labels.find? entry.2 = some entry.1 := by
  rw [List.mem_append, mem_constantsOf_iff, mem_shown_iff h]
  by_cases hmem : entry.2 ∈ lines.map Line.address
  · simp [hmem]
  · simp [hmem]

/-- Labels are shown in the order of the lines. -/
lemma sublist_shown (lines : List Line) :
    ((shown lines).map Prod.snd).Sublist (lines.map Line.address) := by
  induction lines with
  | nil => exact List.Sublist.refl _
  | cons line lines ih =>
    rw [shown, List.filterMap_cons, List.map_cons]
    cases line.label with
    | none => exact ih.cons _
    | some name => exact ih.cons_cons _

/-- **No name is defined twice.** -/
theorem nodup_names (h : CoversFrom trace.labels buffer off lines)
    (hsize : buffer.size < addressCount) (hnumbered : trace.labels.IsNumbered) :
    ((constantsOf true trace lines ++ shown lines).map Prod.fst).Nodup := by
  have hshown : (shown lines).Nodup :=
    List.Nodup.of_map Prod.snd ((h.nodup_addresses hsize).sublist (sublist_shown lines))
  have hpairs : (constantsOf true trace lines ++ shown lines).Nodup := by
    rw [List.nodup_append]
    refine ⟨nodup_constantsOf trace lines, hshown, fun entry hentry other hother heq => ?_⟩
    subst heq
    exact (mem_constantsOf_iff.1 hentry).1 ((mem_shown_iff h).1 hother).1
  refine List.Nodup.map_on (fun entry hentry other hother heq => ?_) hpairs
  have hfound := (mem_names_iff h).1 hentry
  have hfound' := (mem_names_iff h).1 hother
  rw [← heq] at hfound'
  exact Prod.ext heq (hnumbered.inj hfound hfound')

end Names

/-! ### The whole disassembly -/

/-- A disassembly that shows a buffer under labels: its lines cover the buffer, and the names that
it defines are the labels, each of them once. -/
structure Shows (d : Disassembly) (labels : Labels) (buffer : Buffer) : Prop where
  origin_eq : d.origin = buffer.base
  numbered : labels.IsNumbered
  covers : CoversFrom labels buffer 0 d.lines
  mem_names_iff : ∀ entry, entry ∈ d.names ↔ labels.find? entry.2 = some entry.1
  nodup_names : (d.names.map Prod.fst).Nodup

/-- **The disassembly of a buffer shows the buffer** under the labels of its trace. -/
theorem shows_ofBuffer (hlabels : options.useLabels = true) (hsize : buffer.size < addressCount) :
    ∃ labels, (ofBuffer options buffer).Shows labels buffer := by
  have hsound := Trace.sound_run buffer (roots options buffer)
  have hcovers := @coversFrom_linesFrom buffer options _ hlabels hsound hsize buffer.size 0
    (Nat.zero_le _) (Nat.le_refl _)
  have hbase : buffer.addressOf 0 = buffer.base := UInt16.add_zero _
  rw [hbase, Nat.sub_zero] at hcovers
  refine ⟨(Trace.run true buffer (roots options buffer)).labels, rfl, hsound.numbered, ?_, ?_, ?_⟩
  · rw [ofBuffer, hlabels]
    exact hcovers
  · intro entry
    simp only [names, ofBuffer, hlabels]
    exact mem_names_iff hcovers
  · simp only [names, ofBuffer, hlabels]
    exact nodup_names hcovers hsize hsound.numbered

end Disassembly

end Z80
