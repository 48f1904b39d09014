import Z80.Assembly.Encode
import Z80.Proofs.Catalog.Unambiguous
import Z80.Proofs.Result

/-!
# Where the bytes of an instruction stand

Only some slots of a template stand for bytes.  These are the same in both spellings of an
instruction, so its length does not depend on how it is written.  A relative target is the only
value of its instruction, and so is the displacement of an indexed bit operation.

## Main definitions

* `Z80.Slot.isEncoded` — whether a slot stands for bytes behind the opcode.
* `Z80.Template.encoded` — the slots of a template that do.
* `Z80.Descriptor.IsLaidOut` — what the bytes of an encoding have in common with those of others
  of its space.

## Main results

* `Z80.Descriptor.isLaidOut_of_mem_all` — every descriptor of the catalog is laid out so.
* `Z80.Resolved.length_encode` — an instruction is encoded as the bytes that its descriptor counts.
-/

namespace Z80

/-! ### Slots that stand for bytes -/

/-- Whether a slot stands for bytes behind the opcode. -/
def Slot.isEncoded : Slot → Bool
  | named _ | literal _ => false
  | byte | word | relative | port | address | indexed _ => true

/-- The slots of a template that stand for bytes. -/
def Template.encoded (template : Template) : List Slot :=
  template.slots.filter Slot.isEncoded

/-- A slot that stands for no bytes has no width. -/
lemma Slot.width_eq_zero {slot : Slot} (h : slot.isEncoded = false) : slot.width = 0 := by
  cases slot <;> simp_all [isEncoded, width]

/-- Slots that stand for no bytes do not count. -/
lemma Slot.totalWidth_filter (slots : List Slot) :
    totalWidth (slots.filter isEncoded) = totalWidth slots := by
  induction slots with
  | nil => rfl
  | cons slot slots ih =>
    cases h : slot.isEncoded with
    | true => rw [List.filter_cons_of_pos h, totalWidth, totalWidth, ih]
    | false =>
      rw [List.filter_cons_of_neg (by simp [h]), totalWidth, width_eq_zero h, ih, Nat.zero_add]

/-- The bytes of a template are those of its slots that stand for any. -/
lemma Template.totalWidth_encoded (template : Template) :
    Slot.totalWidth template.encoded = template.width :=
  Slot.totalWidth_filter template.slots

/-! ### Descriptors -/

namespace Descriptor

/-- What the bytes of an encoding have in common with those of others of its space: both spellings
have the same values, a relative target stands alone behind an opcode without a prefix, a
displacement alone belongs to an indexed bit operation, and no opcode is a prefix. -/
structure IsLaidOut (d : Descriptor) : Prop where
  encoded_eq : ∀ t ∈ d.spellings, t.encoded = d.template.encoded
  relative : .relative ∈ d.template.encoded → d.space = .main ∧ d.template.encoded = [.relative]
  indexBit : ∀ i, d.space = .indexBit i → d.template.encoded = [.indexed i]
  select : ∀ second, Space.select ((d.space.prefixBytes ++ [d.byte]).headD 0) second =
    match d.space with
    | .index i | .indexBit i => if second = 0xCB then .indexBit i else .index i
    | space => space
  byte_ne : ∀ i, d.space = .index i → d.byte ≠ 0xCB

/-- The same as a test. -/
def isLaidOut (d : Descriptor) : Bool :=
  d.spellings.all (fun t => t.encoded = d.template.encoded)
    && (!d.template.encoded.contains .relative
      || d.space = .main && d.template.encoded = [.relative])
    && match d.space with
      | .main => d.byte ≠ 0xCB && d.byte ≠ 0xDD && d.byte ≠ 0xED && d.byte ≠ 0xFD
      | .index _ => d.byte ≠ 0xCB
      | .indexBit i => d.template.encoded = [.indexed i]
      | .bit | .misc => true

/-- The test finds out what it is meant to. -/
lemma isLaidOut_sound {d : Descriptor} (h : d.isLaidOut) : d.IsLaidOut := by
  simp only [isLaidOut, Bool.and_eq_true, List.all_eq_true, decide_eq_true_eq, Bool.or_eq_true,
    Bool.not_eq_true', List.contains_eq_mem, decide_eq_false_iff_not] at h
  obtain ⟨⟨hspellings, hrelative⟩, hspace⟩ := h
  refine ⟨hspellings, fun hmem => ?_, fun i hi => ?_, fun second => ?_, fun i hi => ?_⟩
  · rcases hrelative with hnone | hboth
    · exact absurd hmem hnone
    · exact hboth
  · rw [hi] at hspace
    simpa using hspace
  · cases hs : d.space with
    | main =>
      rw [hs] at hspace
      simp_all [Space.select, Space.prefixBytes]
    | bit | misc => rfl
    | index i | indexBit i => cases i <;> simp [Space.select, Space.prefixBytes, Index.prefixByte]
  · rw [hi] at hspace
    simpa using hspace

/-- **Every descriptor of the catalog is laid out alike.** -/
theorem isLaidOut_of_mem_all {d : Descriptor} (hd : d ∈ all) : d.IsLaidOut :=
  isLaidOut_sound (of_mem_all (P := isLaidOut) (by decide +kernel) hd)

end Descriptor

/-! ### The number of bytes -/

/-- A slot is encoded as the bytes that it is counted for. -/
lemma Slot.length_encode {scope : Expr.Scope} {here : UInt16} {operand : Operand} {slot : Slot}
    {bytes : List UInt8} (h : slot.encode scope here operand = .ok bytes) :
    bytes.length = slot.width := by
  cases slot with
  | named | literal =>
    obtain rfl := Except.ok.inj h
    rfl
  | byte | port | relative | indexed | word | address =>
    obtain ⟨value, -, rfl⟩ := map_eq_ok_iff.1 h
    rfl

/-- Operands are encoded as the bytes that their slots are counted for. -/
lemma length_encodeOperands {scope : Expr.Scope} :
    ∀ {filled : List (Slot × Operand)} {here : UInt16} {bytes : List UInt8},
      encodeOperands scope here filled = .ok bytes →
      bytes.length = Slot.totalWidth (filled.map Prod.fst)
  | [], _, _, h => by
    obtain rfl := Except.ok.inj h
    rfl
  | (slot, operand) :: filled, here, bytes, h => by
    obtain ⟨first, hfirst, h⟩ := bind_eq_ok_iff.1 h
    obtain ⟨rest, hrest, h⟩ := bind_eq_ok_iff.1 h
    obtain rfl := Except.ok.inj h
    rw [List.length_append, Slot.length_encode hfirst, length_encodeOperands hrest]
    rfl

namespace Resolved

/-- The bytes around the operands are the prefix and the opcode. -/
lemma length_head_add_tail (r : Resolved) :
    r.head.length + r.tail.length = r.descriptor.space.prefixBytes.length + 1 := by
  unfold head tail
  cases r.descriptor.space <;> simp

variable {r : Resolved} {scope : Expr.Scope} {word : String} {operands : List Operand}

/-- The template by which an instruction is denoted is a spelling of it. -/
lemma Denotes.mem_spellings (h : r.Denotes scope word operands) :
    r.template ∈ r.descriptor.spellings :=
  Descriptor.mem_spellings_of_spelling? h.spelling

/-- Each slot of the template has its operand. -/
lemma Denotes.length_slots (h : r.Denotes scope word operands) :
    r.template.slots.length = operands.length := by
  have haccepts := h.accepts
  simp only [Template.accepts, Bool.and_eq_true, beq_iff_eq] at haccepts
  exact haccepts.1

/-- Both spellings stand for the same number of bytes. -/
lemma Denotes.width_template (h : r.Denotes scope word operands) :
    r.template.width = r.descriptor.template.width := by
  have hlaid := Descriptor.isLaidOut_of_mem_all h.mem_all
  rw [← Template.totalWidth_encoded, hlaid.encoded_eq _ h.mem_spellings,
    Template.totalWidth_encoded]

/-- **An instruction is encoded as the bytes that its descriptor counts**, by whichever of its
templates it is written. -/
theorem length_encode {later : Expr.Scope} (h : r.Denotes scope word operands) {e : Encoding}
    (he : r.encode later operands = .ok e) : e.bytes.length = r.descriptor.size := by
  obtain ⟨bytes, hbytes, he⟩ := bind_eq_ok_iff.1 he
  obtain rfl := Except.ok.inj he
  have hslots : (r.filled operands).map Prod.fst = r.template.slots :=
    List.map_fst_zip (Nat.le_of_eq h.length_slots)
  have hlength := length_encodeOperands hbytes
  rw [hslots] at hlength
  have hwidth : Slot.totalWidth r.template.slots = r.descriptor.template.width := h.width_template
  have haround := r.length_head_add_tail
  simp only [List.length_append, Descriptor.size]
  omega

end Resolved

end Z80
