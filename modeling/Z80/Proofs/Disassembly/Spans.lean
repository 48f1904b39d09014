import Z80.Disassembly.Trace
import Z80.Proofs.Catalog.Roles
import Z80.Proofs.Disassembly.Buffer

/-!
# The bytes of the instructions found

A trace marks the bytes of each instruction that it finds.  The marks tell apart the first byte of
an instruction from the others, and bytes that belong to none; so two instructions that were found
have no byte in common, and no byte is marked that belongs to none of them.

## Main definitions

* `Z80.Instruction.span` — the addresses of the bytes of an instruction.
* `Z80.Trace.Finds` — whether an instruction was found.
* `Z80.Trace.Marked` — marks that are those of instructions of a buffer.

## Main results

* `Z80.Trace.finds_claim_iff` — one more instruction is found, and all others stay found.
* `Z80.Trace.Marked.claim` — an instruction whose bytes are free keeps the marks in order.
* `Z80.Trace.visit_cases` — what becomes of an address on a path.

## Design

Of a trace only the marks matter here, so everything is said for traces with equal marks
(`Z80.Trace.Marked.congr`).
-/

namespace Z80

/-! ### Spans -/

namespace Instruction

/-- The addresses of the bytes of an instruction. -/
def span (i : Instruction) : List UInt16 :=
  addressesFrom i.address i.size

end Instruction

/-- An encoding has at most four bytes. -/
lemma Descriptor.size_le_of_mem_all {d : Descriptor} (h : d ∈ all) : d.size ≤ 4 :=
  of_decide_eq_true (of_mem_all (P := fun d => d.size ≤ 4) (by decide +kernel) h)

namespace Buffer

variable {b : Buffer} {address : UInt16} {i : Instruction}

/-- An instruction is at the address at which it is found. -/
lemma address_of_decode? (h : b.decode? address = some i) : i.address = address :=
  (decode?_eq_some_iff.1 h).2.1

/-- An instruction has the size of its descriptor. -/
lemma size_of_decode? (h : b.decode? address = some i) : i.size = i.descriptor.size := by
  rw [Instruction.size, ← (decode?_eq_some_iff.1 h).2.2.2, length_readBytes]

/-- The bytes of an instruction are those that are read. -/
lemma bytes_of_decode? (h : b.decode? address = some i) :
    readBytes b.read i.address i.bytes.length = i.bytes := by
  obtain ⟨-, rfl, -, hbytes⟩ := decode?_eq_some_iff.1 h
  rw [← Instruction.size, size_of_decode? h, hbytes]

/-- The bytes of an instruction are in the buffer. -/
lemma contains_of_mem_span (h : b.decode? address = some i) {a : UInt16} (ha : a ∈ i.span) :
    b.contains a := by
  obtain ⟨-, rfl, hcontains, -⟩ := decode?_eq_some_iff.1 h
  rw [Instruction.span, size_of_decode? h] at ha
  exact hcontains a ha

/-- An instruction has at least one byte. -/
lemma size_pos_of_decode? (h : b.decode? address = some i) : 0 < i.size := by
  rw [size_of_decode? h, Descriptor.size]
  omega

/-- An instruction has at most four bytes. -/
lemma size_le_of_decode? (h : b.decode? address = some i) : i.size ≤ 4 := by
  rw [size_of_decode? h]
  exact Descriptor.size_le_of_mem_all (Descriptor.of_decode (decode?_eq_some_iff.1 h).1).1

/-- An instruction has its first byte. -/
lemma address_mem_span (h : b.decode? address = some i) : i.address ∈ i.span :=
  mem_addressesFrom.2 ⟨0, size_pos_of_decode? h, by simp⟩

end Buffer

namespace Trace

variable {trace after : Trace} {buffer : Buffer} {i j : Instruction} {text : String}

/-! ### Instructions that are found -/

/-- Whether a trace has found an instruction. -/
def Finds (trace : Trace) (i : Instruction) : Prop :=
  ∃ text, trace.marks.get i.address = .start i text

/-- Traces with the same marks have found the same. -/
lemma finds_congr (h : after.marks = trace.marks) : after.Finds i ↔ trace.Finds i := by
  rw [Finds, Finds, h]

/-- The first byte of an instruction that is found is not free. -/
lemma Finds.isFree_address (hi : trace.Finds i) : (trace.marks.get i.address).isFree = false := by
  obtain ⟨text, hi⟩ := hi
  rw [hi]
  rfl

/-- Bytes are free if each of them is. -/
lemma isFree_iff {address : UInt16} {count : Nat} :
    trace.isFree address count = true ↔
      ∀ a ∈ addressesFrom address count, (trace.marks.get a).isFree = true := by
  induction count generalizing address with
  | zero => simp [isFree, addressesFrom]
  | succ count ih => simp [isFree, addressesFrom, ih]

/-- The marks behind an instruction: its first byte, its other bytes, and the marks that were
there. -/
lemma get_claim (trace : Trace) (i : Instruction) (text : String) (a : UInt16) :
    (trace.claim i text).marks.get a =
      if i.address = a then .start i text
      else if a ∈ i.span then .inside else trace.marks.get a := by
  have hmarks : (trace.claim i text).marks =
      (trace.marks.setRange i.address .inside i.size).set i.address (.start i text) := rfl
  rw [hmarks, AddressMap.get_set, AddressMap.get_setRange]
  rfl

/-- **An instruction whose bytes were free is found, and all others stay found.** -/
theorem finds_claim_iff (hfree : ∀ a ∈ i.span, (trace.marks.get a).isFree = true)
    (hself : i.address ∈ i.span) : (trace.claim i text).Finds j ↔ j = i ∨ trace.Finds j := by
  constructor
  · rintro ⟨text', hj⟩
    rw [get_claim] at hj
    split at hj
    · exact .inl (Mark.start.inj hj).1.symm
    · split at hj
      · simp at hj
      · exact .inr ⟨text', hj⟩
  · rintro (rfl | hj)
    · exact ⟨text, by rw [get_claim, if_pos rfl]⟩
    · -- the first byte of the other instruction is not free
      have hnotMem : j.address ∉ i.span := by
        intro hmem
        have := hfree _ hmem
        rw [hj.isFree_address] at this
        simp at this
      have hne : i.address ≠ j.address := fun heq => hnotMem (heq ▸ hself)
      obtain ⟨text', hj⟩ := hj
      exact ⟨text', by rw [get_claim, if_neg hne, if_neg hnotMem, hj]⟩

/-! ### Marks in order -/

/-- Marks that are those of instructions of a buffer: an instruction is marked where it decodes, the
marked bytes are those of the instructions found, and no two of these share one. -/
structure Marked (trace : Trace) (buffer : Buffer) : Prop where
  start : ∀ {address : UInt16} {i : Instruction} {text : String},
    trace.marks.get address = .start i text → buffer.decode? address = some i
  isFree_iff : ∀ a, (trace.marks.get a).isFree = false ↔ ∃ i, trace.Finds i ∧ a ∈ i.span
  disjoint : ∀ {i j : Instruction}, trace.Finds i → trace.Finds j →
    ∀ a ∈ i.span, a ∈ j.span → i = j

/-- Nothing is marked in the trace of nothing. -/
lemma marked_empty (buffer : Buffer) : empty.Marked buffer := by
  have hnone : ∀ i, ¬ empty.Finds i := by
    rintro i ⟨text, hi⟩
    simp [empty] at hi
  refine ⟨fun h => ?_, fun a => ⟨fun h => ?_, fun ⟨i, hi, _⟩ => absurd hi (hnone i)⟩,
    fun hi => absurd hi (hnone _)⟩
  · simp [empty] at h
  · simp [empty, Mark.isFree] at h

namespace Marked

/-- Traces with the same marks are marked alike. -/
lemma congr (h : trace.Marked buffer) (hmarks : after.marks = trace.marks) :
    after.Marked buffer where
  start hstart := h.start (hmarks ▸ hstart)
  isFree_iff a := by simp only [hmarks, h.isFree_iff, finds_congr hmarks]
  disjoint hi hj := h.disjoint ((finds_congr hmarks).1 hi) ((finds_congr hmarks).1 hj)

variable (h : trace.Marked buffer)

include h

/-- An instruction that is found is one of the buffer. -/
lemma decode?_eq (hi : trace.Finds i) : buffer.decode? i.address = some i := by
  obtain ⟨text, hi⟩ := hi
  exact h.start hi

/-- A mark at the first byte of an instruction is at its address. -/
lemma finds_of_start {address : UInt16} (hstart : trace.marks.get address = .start i text) :
    trace.Finds i ∧ i.address = address := by
  have haddress := Buffer.address_of_decode? (h.start hstart)
  exact ⟨⟨text, haddress ▸ hstart⟩, haddress⟩

/-- **An instruction of the buffer whose bytes are free keeps the marks in order.** -/
theorem claim (hdecode : buffer.decode? i.address = some i)
    (hfree : ∀ a ∈ i.span, (trace.marks.get a).isFree = true) (text : String) :
    (trace.claim i text).Marked buffer := by
  have hself := Buffer.address_mem_span hdecode
  have hfinds : ∀ j, (trace.claim i text).Finds j ↔ j = i ∨ trace.Finds j :=
    fun j => finds_claim_iff hfree hself
  -- the bytes of the instructions found before are not free
  have hapart : ∀ j, trace.Finds j → ∀ a ∈ j.span, a ∉ i.span := by
    intro j hj a ha hmem
    have := (h.isFree_iff a).2 ⟨j, hj, ha⟩
    rw [hfree a hmem] at this
    simp at this
  refine ⟨fun {address j text'} hstart => ?_, fun a => ?_, fun {j k} hj hk a ha ha' => ?_⟩
  · rw [get_claim] at hstart
    split at hstart
    · next heq =>
      obtain ⟨rfl, -⟩ := Mark.start.inj hstart
      exact heq ▸ hdecode
    · split at hstart
      · simp at hstart
      · exact h.start hstart
  · simp only [hfinds, or_and_right, exists_or, exists_eq_left, ← h.isFree_iff]
    rw [get_claim]
    split
    · next heq => simp [Mark.isFree, ← heq, hself]
    · split
      · next hmem => simp [Mark.isFree, hmem]
      · next hmem => simp [hmem]
  · rcases (hfinds j).1 hj with heq | hold
    · rcases (hfinds k).1 hk with heq' | hold'
      · exact heq.trans heq'.symm
      · exact absurd (heq ▸ ha) (hapart k hold' a ha')
    · rcases (hfinds k).1 hk with heq' | hold'
      · exact absurd (heq' ▸ ha') (hapart j hold a ha)
      · exact h.disjoint hold hold' a ha ha'

end Marked

/-! ### One instruction of a path -/

/-- **What becomes of an address on a path**: no instruction is there, it meets bytes of another
one, or it is followed. -/
theorem visit_cases (useLabels : Bool) (buffer : Buffer) (trace : Trace) (address : UInt16) :
    (buffer.decode? address = none ∧ trace.visit useLabels buffer address = (trace, none)) ∨
    (∃ i, buffer.decode? address = some i ∧
      (∃ a ∈ i.span, (trace.marks.get a).isFree = false) ∧
      trace.visit useLabels buffer address = (trace, none)) ∨
    ∃ i, buffer.decode? i.address = some i ∧ i.address = address ∧
      (∀ a ∈ i.span, (trace.marks.get a).isFree = true) ∧
      trace.visit useLabels buffer address = trace.follow useLabels i := by
  unfold visit
  cases hdecode : buffer.decode? address with
  | none => exact .inl ⟨rfl, rfl⟩
  | some i =>
    obtain rfl := Buffer.address_of_decode? hdecode
    refine .inr ?_
    cases hfree : trace.isFree i.address i.size with
    | true => exact .inr ⟨i, hdecode, rfl, isFree_iff.1 hfree, by simp [hfree]⟩
    | false =>
      refine .inl ⟨i, rfl, ?_, by simp [hfree]⟩
      by_contra hall
      simp only [not_exists, not_and, Bool.not_eq_false] at hall
      rw [isFree_iff.2 hall] at hfree
      simp at hfree

end Trace

end Z80
