import Z80.Disassembly.Disassemble
import Z80.Proofs.Assembly.Passage
import Z80.Proofs.Disassembly.Operands

/-!
# Statements of a disassembly read back

An instruction that was decoded is written as a statement that is read as an instruction again, and
that is encoded as the bytes which were decoded.  The same holds for bytes that are written as data.

## Main definitions

* `Z80.Descriptor.resolved` — an encoding as what a source instruction denotes.
* `Z80.Instruction.StandsIn` — an instruction that was decoded.

## Main results

* `Z80.Descriptor.readBytes_size` — decoded bytes are a prefix and opcode around those of operands.
* `Z80.Instruction.StandsIn.readsAs`, `Z80.Instruction.StandsIn.writes` — the line of a decoded
  instruction is read as a statement that writes the bytes which were decoded.
* `Z80.Instruction.StandsIn.fails` — unless a distance in it leads past the last address.
* `Z80.readsAs_dataText`, `Z80.writes_bytes` — the line of data is read back as well.
-/

namespace Z80

open Source (IsPiece ReadsAs Statement statementChars)

/-! ### Decoded bytes -/

/-- The prefix of a space stands in front of its instructions. -/
lemma Space.prefixBytes_select (first second : UInt8) :
    (select first second).prefixBytes =
      [first, second].take (select first second).prefixBytes.length := by
  unfold select
  split
  · next h => rw [h]; rfl
  split
  · next h => rw [h]; rfl
  split
  · next h =>
    split
    · next h' => rw [h, h']; rfl
    · rw [h]; rfl
  split
  · next h =>
    split
    · next h' => rw [h, h']; rfl
    · rw [h]; rfl
  · rfl

namespace Descriptor

variable {read : UInt16 → UInt8} {address : UInt16} {d : Descriptor}

/-- An encoding as what a source instruction denotes by its template proper. -/
def resolved (d : Descriptor) : Resolved :=
  ⟨d, d.template, false⟩

/-- The number of bytes in front of the operands. -/
lemma length_head_resolved (d : Descriptor) : d.resolved.head.length = d.space.operandOffset := by
  unfold Resolved.head resolved
  cases d.space <;> rfl

/-- The bytes in front of the operands stand there. -/
lemma readBytes_head (h : decode read address = .ok d) :
    readBytes read address d.resolved.head.length = d.resolved.head := by
  obtain ⟨-, hspace, hopcode⟩ := of_decode h
  have hprefix := Space.prefixBytes_select (read address) (read (address + 1))
  rw [show Space.select (read address) (read (address + 1)) = d.space from hspace] at hprefix
  simp only [Space.opcodeAt] at hopcode
  unfold Resolved.head resolved
  cases hs : d.space with
  | main =>
    simp [hs, Space.opcodeOffset] at hopcode
    simp [Space.prefixBytes, readBytes, hopcode]
  | bit | misc | index i =>
    simp only [hs, Space.prefixBytes, Space.opcodeOffset] at hopcode hprefix
    simp_all [Space.prefixBytes, readBytes]
  | indexBit i =>
    simp only [hs, Space.prefixBytes] at hprefix
    simp_all [Space.prefixBytes, readBytes]

/-- The bytes behind the operands stand there. -/
lemma readBytes_tail (h : decode read address = .ok d) :
    readBytes read (address + UInt16.ofNat (d.resolved.head.length + d.template.width))
      d.resolved.tail.length = d.resolved.tail := by
  obtain ⟨hmem, -, hopcode⟩ := of_decode h
  simp only [Space.opcodeAt] at hopcode
  unfold Resolved.head Resolved.tail resolved
  cases hs : d.space with
  | main | bit | misc | index i => rfl
  | indexBit i =>
    have hwidth : d.template.width = 1 := by
      rw [← Template.totalWidth_encoded, (isLaidOut_of_mem_all hmem).indexBit i hs]
      rfl
    simp only [hs, Space.opcodeOffset] at hopcode
    simp [hwidth, Space.prefixBytes, readBytes, ← hopcode]

/-- **Decoded bytes are a prefix and opcode around the bytes of operands.** -/
theorem readBytes_size (h : decode read address = .ok d) :
    readBytes read address d.size = d.resolved.head ++
      readBytes read (address + UInt16.ofNat d.resolved.head.length) d.template.width ++
        d.resolved.tail := by
  have hsize : d.size = d.resolved.head.length + d.template.width + d.resolved.tail.length := by
    have haround : d.resolved.head.length + d.resolved.tail.length =
        d.space.prefixBytes.length + 1 := d.resolved.length_head_add_tail
    rw [size]
    omega
  rw [hsize, readBytes_add, readBytes_add, readBytes_head h, readBytes_tail h]

end Descriptor

/-! ### Values -/

/-- A value that bytes give to slots is the value of one of them. -/
lemma exists_of_mem_slotValues {next : UInt16} {slots : List Slot} {bytes : List UInt8}
    {value : Value} (h : value ∈ slotValues next slots bytes) :
    ∃ slot ∈ slots, ∃ rest, value = slot.value next rest := by
  induction slots generalizing bytes with
  | nil => simp [slotValues] at h
  | cons slot slots ih =>
    rw [slotValues, List.mem_cons] at h
    rcases h with rfl | hmem
    · exact ⟨slot, List.mem_cons_self, bytes, rfl⟩
    · obtain ⟨found, hfound, rest, hvalue⟩ := ih hmem
      exact ⟨found, List.mem_cons_of_mem _ hfound, rest, hvalue⟩

/-- A relative target is the value of a relative operand. -/
lemma Slot.eq_relative_of_value {slot : Slot} {next target : UInt16} {bytes : List UInt8}
    (h : slot.value next bytes = .relative target) : slot = .relative := by
  cases slot <;> simp [value] at h ⊢

/-- A relative target among the values of slots is that of a relative operand, at the distance of a
byte. -/
lemma exists_of_relative_mem_slotValues {next target : UInt16} {slots : List Slot}
    {bytes : List UInt8} (h : .relative target ∈ slotValues next slots bytes) :
    .relative ∈ slots ∧ ∃ b, target = next + signExtend b := by
  obtain ⟨slot, hslot, rest, hvalue⟩ := exists_of_mem_slotValues h
  obtain rfl := Slot.eq_relative_of_value hvalue.symm
  exact ⟨hslot, rest.headD 0, Value.relative.inj hvalue⟩

/-- Each slot has its value. -/
lemma length_slotValues (next : UInt16) (slots : List Slot) (bytes : List UInt8) :
    (slotValues next slots bytes).length = slots.length := by
  induction slots generalizing bytes with
  | nil => rfl
  | cons slot slots ih => rw [slotValues, List.length_cons, List.length_cons, ih]

/-- Each slot stands beside its own value. -/
lemma exists_of_mem_zip_slotValues {next : UInt16} {slots : List Slot} {bytes : List UInt8}
    {entry : Slot × Value} (h : entry ∈ slots.zip (slotValues next slots bytes)) :
    ∃ rest, entry.2 = entry.1.value next rest := by
  induction slots generalizing bytes with
  | nil => simp at h
  | cons slot slots ih =>
    rw [slotValues, List.zip_cons_cons, List.mem_cons] at h
    rcases h with rfl | hmem
    · exact ⟨bytes, rfl⟩
    · exact ih hmem

/-- What is spelled out leads nowhere. -/
lemma firstTarget?_filter (values : List Value) :
    Instruction.firstTarget? (values.filter Value.isEncoded) =
      Instruction.firstTarget? values := by
  induction values with
  | nil => rfl
  | cons value values ih =>
    cases value with
    | text s => rw [List.filter_cons_of_neg (by simp [Value.isEncoded]), ih]; rfl
    | byte | port | address | indexed =>
      rw [List.filter_cons_of_pos rfl]
      exact ih
    | word w | relative target => rfl

/-- Every instruction with a relative operand is a jump. -/
lemma Descriptor.category_of_relative {d : Descriptor} (hd : d ∈ all)
    (h : .relative ∈ d.template.slots) :
    d.category = .conditionalJump ∨ d.category = .unconditionalJump := by
  have key := of_mem_all (P := fun d => !d.template.slots.contains .relative ||
    (d.category = .conditionalJump || d.category = .unconditionalJump)) (by decide +kernel) hd
  simpa [h] using key

namespace Instruction

variable {i : Instruction} {read : UInt16 → UInt8} {label : UInt16 → Option String}

/-- The instruction that is decoded from the bytes at its address. -/
structure StandsIn (i : Instruction) (read : UInt16 → UInt8) : Prop where
  decode_eq : Descriptor.decode read i.address = .ok i.descriptor
  bytes_eq : readBytes read i.address i.descriptor.size = i.bytes

/-- The number of bytes is that of the descriptor. -/
lemma StandsIn.length_bytes (h : i.StandsIn read) : i.bytes.length = i.descriptor.size := by
  rw [← h.bytes_eq, length_readBytes]

/-- The bytes of the operands are those that the template counts, and the opcode if it comes
last. -/
lemma StandsIn.drop_bytes (h : i.StandsIn read) :
    ∃ bytes, bytes.length = i.descriptor.template.width ∧
      i.bytes = i.descriptor.resolved.head ++ bytes ++ i.descriptor.resolved.tail ∧
      i.bytes.drop i.descriptor.space.operandOffset = bytes ++ i.descriptor.resolved.tail := by
  have hsize := Descriptor.readBytes_size h.decode_eq
  rw [h.bytes_eq] at hsize
  refine ⟨_, length_readBytes .., hsize, ?_⟩
  rw [hsize, ← Descriptor.length_head_resolved, List.append_assoc, List.drop_left]

/-- **The operand of a relative jump is its target.** -/
lemma StandsIn.target?_of_relative (h : i.StandsIn read) {target : UInt16}
    (hmem : .relative target ∈ i.values) : i.target? = some target := by
  have hd := (Descriptor.of_decode h.decode_eq).1
  have hslot : .relative ∈ i.descriptor.template.slots :=
    (exists_of_relative_mem_slotValues hmem).1
  have hencoded : .relative ∈ i.descriptor.template.encoded := List.mem_filter.2 ⟨hslot, rfl⟩
  have hlaid := (Descriptor.isLaidOut_of_mem_all hd).relative hencoded
  have hvalues : i.values.filter Value.isEncoded = [.relative target] := by
    have hfilter : .relative target ∈ i.values.filter Value.isEncoded :=
      List.mem_filter.2 ⟨hmem, rfl⟩
    have hall : i.values.filter Value.isEncoded =
        slotValues i.next [.relative] (i.bytes.drop i.descriptor.space.operandOffset) := by
      rw [values, filter_slotValues, ← Template.encoded, hlaid.2]
    rw [hall] at hfilter ⊢
    simp only [slotValues, List.mem_singleton] at hfilter ⊢
    rw [hfilter]
  have hfirst : firstTarget? i.values = some target := by
    rw [← firstTarget?_filter, hvalues]
    rfl
  rw [target?]
  rcases Descriptor.category_of_relative hd hslot with hcategory | hcategory
  all_goals
    rw [category, hcategory]
    exact hfirst

/-- The operands of an instruction as they are written. -/
def operandTexts (i : Instruction) (label : UInt16 → Option String) : List String :=
  i.values.map (i.valueText label)

/-- In front of a relative operand that is the only one with bytes no operand has any. -/
lemma isEncoded_of_filter_eq_relative {slot : Slot} {slots : List Slot}
    (h : (slot :: slots).filter Slot.isEncoded = [.relative]) (hmem : .relative ∈ slots) :
    slot.isEncoded = false ∧ slots.filter Slot.isEncoded = [.relative] := by
  have hnot : slot.isEncoded = false := by
    by_contra hencoded
    rw [List.filter_cons_of_pos (by simpa using hencoded), List.cons.injEq] at h
    have hnone : .relative ∈ slots.filter Slot.isEncoded := List.mem_filter.2 ⟨hmem, rfl⟩
    rw [h.2] at hnone
    simp at hnone
  rw [List.filter_cons_of_neg (by simp [hnot])] at h
  exact ⟨hnot, h⟩

/-- The operands as they are written are encoded as the bytes they were taken from. -/
lemma encodeOperands_slotValues {scope : Expr.Scope} (hhere : scope.here = i.address)
    (hlabel : IsLabelling label) (hknows : scope.Knows label) {slots : List Slot}
    {next here : UInt16} {bytes : List UInt8} (hwidth : Slot.totalWidth slots ≤ bytes.length)
    (hreaches : ∀ target, .relative target ∈ slotValues next slots bytes → i.Reaches label target)
    (hnext : .relative ∈ slots → (scope.here + 1 = here ∧ here + 1 = next) ∧
      slots.filter Slot.isEncoded = [.relative]) :
    encodeOperands scope here
      (slots.zip (operandsOf ((slotValues next slots bytes).map (i.valueText label)))) =
        .ok (bytes.take (Slot.totalWidth slots)) := by
  induction slots generalizing here bytes with
  | nil => rfl
  | cons slot slots ih =>
    rw [Slot.totalWidth] at hwidth
    have hfirst : slot.encode scope here
        (Operand.ofText (i.valueText label (slot.value next bytes))) =
          .ok (bytes.take slot.width) := by
      refine encode_valueText hhere hlabel hknows (by omega) (fun target htarget => ?_)
        fun hslot => ?_
      · exact hreaches target (by rw [slotValues, htarget]; exact List.mem_cons_self)
      · exact (hnext (by rw [hslot]; exact List.mem_cons_self)).1
    have hlength : (bytes.take slot.width).length = slot.width := by
      rw [List.length_take]
      omega
    have hdrop : Slot.totalWidth slots ≤ (bytes.drop slot.width).length := by
      rw [List.length_drop]
      omega
    have hmore := @ih (here + UInt16.ofNat (bytes.take slot.width).length) _ hdrop
      (fun target hmem => hreaches target (List.mem_cons_of_mem _ hmem)) fun hmem => by
        -- in front of a relative operand nothing stands for bytes
        obtain ⟨hplace, hfilter⟩ := hnext (List.mem_cons_of_mem _ hmem)
        obtain ⟨hnot, hmore⟩ := isEncoded_of_filter_eq_relative hfilter hmem
        rw [hlength, Slot.width_eq_zero hnot, show UInt16.ofNat 0 = 0 from rfl, UInt16.add_zero]
        exact ⟨hplace, hmore⟩
    simp only [slotValues, List.map_cons, operandsOf, List.zip_cons_cons, encodeOperands] at hmore ⊢
    rw [hfirst, ok_bind, hmore, ok_bind, Slot.totalWidth, List.take_add]
    rfl

/-- A relative target without a label that leads past the last address has no encoding. -/
lemma encodeOperands_slotValues_eq_error {scope : Expr.Scope} (hhere : scope.here = i.address)
    {slots : List Slot} {next here target : UInt16} {bytes : List UInt8}
    (hfilter : slots.filter Slot.isEncoded = [.relative])
    (hmem : .relative target ∈ slotValues next slots bytes) (hnone : label target = none)
    (hnear : IsNear i.address target) (hend : relativePassesEnd i.address target = true) :
    encodeOperands scope here
      (slots.zip (operandsOf ((slotValues next slots bytes).map (i.valueText label)))) =
        .error (.expression (.outOfRange (.ofInt (relativeValue i.address target)) .word)) := by
  induction slots generalizing here bytes with
  | nil => simp [slotValues] at hmem
  | cons slot slots ih =>
    rw [slotValues, List.mem_cons] at hmem
    simp only [slotValues, List.map_cons, operandsOf, List.zip_cons_cons, encodeOperands] at ih ⊢
    rcases hmem with hvalue | hmore
    · obtain rfl := Slot.eq_relative_of_value hvalue.symm
      have hwritten : i.valueText label (.relative target) = relativeText i.address target := by
        rw [valueText, hnone, Option.getD_none]
      have htext := text_ofText (isPiece_relativeText i.address target)
      rw [← hhere] at hnear hend htext ⊢
      rw [← hvalue, hwritten, Slot.encode, ← hhere, htext,
        relativeByte_relativeText_eq_error here hnear hend]
      rfl
    · -- in front of a relative operand nothing stands for bytes
      obtain ⟨hnot, hfilter⟩ := isEncoded_of_filter_eq_relative hfilter
        (exists_of_relative_mem_slotValues hmore).1
      have hfirst : slot.encode scope here
          (Operand.ofText (i.valueText label (slot.value next bytes))) = .ok [] := by
        cases slot with
        | named | literal => rfl
        | byte | word | relative | port | address | indexed => simp [Slot.isEncoded] at hnot
      rw [hfirst, ok_bind, ih hfilter hmore]
      rfl

/-- A relative operand is the second byte of an instruction of two bytes. -/
lemma StandsIn.relative (h : i.StandsIn read) (hmem : .relative ∈ i.descriptor.template.slots) :
    i.descriptor.template.encoded = [.relative] ∧ i.descriptor.resolved.head.length = 1 ∧
      i.next = i.address + 1 + 1 := by
  have hd := (Descriptor.of_decode h.decode_eq).1
  obtain ⟨hspace, hencoded⟩ :=
    (Descriptor.isLaidOut_of_mem_all hd).relative (List.mem_filter.2 ⟨hmem, rfl⟩)
  have hsize : i.size = 2 := by
    rw [size, h.length_bytes, Descriptor.size, ← Template.totalWidth_encoded, hencoded, hspace]
    rfl
  refine ⟨hencoded, ?_, ?_⟩
  · rw [Descriptor.length_head_resolved, hspace]
    rfl
  · rw [next, hsize, UInt16.add_assoc]
    rfl

/-- The operands as they are written are encoded as the bytes they were taken from. -/
lemma StandsIn.encodeOperands_eq (h : i.StandsIn read) {scope : Expr.Scope}
    (hhere : scope.here = i.address) (hlabel : IsLabelling label) (hknows : scope.Knows label)
    (hreaches : ∀ target, .relative target ∈ i.values → i.Reaches label target) :
    ∃ bytes, encodeOperands scope
        (scope.here + UInt16.ofNat i.descriptor.resolved.head.length)
        (i.descriptor.resolved.filled (operandsOf (i.operandTexts label))) = .ok bytes ∧
      i.bytes = i.descriptor.resolved.head ++ bytes ++ i.descriptor.resolved.tail := by
  obtain ⟨bytes, hlength, hbytes, hdrop⟩ := h.drop_bytes
  refine ⟨bytes, ?_, hbytes⟩
  have hwidth : Slot.totalWidth i.descriptor.template.slots = bytes.length := hlength.symm
  have htake : (bytes ++ i.descriptor.resolved.tail).take
      (Slot.totalWidth i.descriptor.template.slots) = bytes := by
    rw [hwidth, List.take_left]
  rw [← htake, Resolved.filled, operandTexts, values, hdrop]
  refine encodeOperands_slotValues hhere hlabel hknows ?_ (fun target hmem => ?_) fun hmem => ?_
  · show Slot.totalWidth i.descriptor.template.slots ≤ _
    rw [hwidth, List.length_append]
    omega
  · rw [← hdrop] at hmem
    exact hreaches target hmem
  · obtain ⟨hencoded, hhead, hnext⟩ := h.relative hmem
    rw [hhead, hnext, hhere]
    exact ⟨⟨rfl, rfl⟩, hencoded⟩

/-- Every slot of a decoded instruction is spelled out as in the catalog. -/
lemma StandsIn.isSpelled (h : i.StandsIn read) :
    ∀ slot ∈ i.descriptor.template.slots, slot.IsSpelled := by
  have hd := (Descriptor.of_decode h.decode_eq).1
  exact Template.isSpelled_of_isRegular
    (Descriptor.isRegular_of_mem_all hd (List.mem_cons_self : _ ∈ i.descriptor.spellings))

/-- The template of a decoded instruction accepts the operands as they are written. -/
lemma StandsIn.accepts (h : i.StandsIn read) (scope : Expr.Scope) (hlabel : IsLabelling label) :
    i.descriptor.template.accepts scope (operandsOf (i.operandTexts label)) := by
  have hlength : i.descriptor.template.slots.length =
      (operandsOf (i.operandTexts label)).length := by
    rw [operandsOf, operandTexts, values, List.length_map, List.length_map, length_slotValues]
  rw [Template.accepts, Bool.and_eq_true, beq_iff_eq, List.all_eq_true]
  refine ⟨hlength, fun filled hfilled => ?_⟩
  obtain ⟨slot, operand⟩ := filled
  rw [operandsOf, operandTexts, List.map_map, List.zip_map_right, List.mem_map] at hfilled
  obtain ⟨entry, hentry, heq⟩ := hfilled
  obtain ⟨rfl, rfl⟩ := Prod.mk.inj heq
  obtain ⟨rest, hvalue⟩ := exists_of_mem_zip_slotValues hentry
  have hslot := h.isSpelled entry.1 (List.of_mem_zip hentry).1
  have key := @accepts_valueText i label entry.1 i.next rest scope
    i.descriptor.template.mnemonic hslot hlabel
  rwa [← hvalue] at key

end Instruction

/-! ### Instructions -/

/-- A mnemonic is a word that no directive has, and it is read as itself. -/
lemma Mnemonic.name_read (m : Mnemonic) :
    m.name.toList ≠ [] ∧ m.name.toList.all Expr.isWordChar ∧
      m.name.toList.map Char.toLower = m.name.toList ∧
      Segment.ofDirective? m.name = none ∧ Statement.Directive.ofWord? m.name = none ∧
      ofText? m.name = some m := by
  cases m <;> decide +kernel

/-- The shadow register occurs in one instruction alone. -/
lemma Descriptor.template_of_shadow {d : Descriptor} (hd : d ∈ all)
    (h : .named "af'" ∈ d.template.slots) :
    d.template = ⟨.ex, [.named "af", .named "af'"]⟩ := by
  have key := of_mem_all (P := fun d => !d.template.slots.contains (.named "af'") ||
    decide (d.template = ⟨.ex, [.named "af", .named "af'"]⟩)) (by decide +kernel) hd
  simpa [h] using key

namespace Instruction

variable {i : Instruction} {read : UInt16 → UInt8} {label : UInt16 → Option String}

/-- **The statement of a decoded instruction denotes its descriptor**, whatever is known of
names. -/
theorem StandsIn.denotes (h : i.StandsIn read) (hduplicate : i.descriptor.isDuplicate = false)
    (scope : Expr.Scope) (hlabel : IsLabelling label) :
    i.descriptor.resolved.Denotes scope i.descriptor.template.mnemonic.name
      (operandsOf (i.operandTexts label)) where
  mem_all := (Descriptor.of_decode h.decode_eq).1
  spelling := rfl
  isDuplicate := hduplicate
  mnemonic := (Mnemonic.name_read _).2.2.2.2.2
  accepts := h.accepts scope hlabel

/-- The statement of a decoded instruction is resolved to its descriptor. -/
lemma StandsIn.resolve_eq (h : i.StandsIn read) (hduplicate : i.descriptor.isDuplicate = false)
    (scope : Expr.Scope) (hlabel : IsLabelling label) :
    resolve scope i.descriptor.template.mnemonic.name (operandsOf (i.operandTexts label)) =
      .ok i.descriptor.resolved :=
  (resolve_eq_ok_iff (isShaped_operandsOf _)).2 (h.denotes hduplicate scope hlabel)

/-- The first pass goes as far behind the statement of a decoded instruction as this has bytes. -/
lemma StandsIn.place_eq (h : i.StandsIn read) (hduplicate : i.descriptor.isDuplicate = false)
    (hlabel : IsLabelling label) (layout : Layout) :
    layout.place (.instruction i.descriptor.template.mnemonic.name (i.operandTexts label)) =
      .ok (layout.advance (UInt16.ofNat i.bytes.length)) := by
  simp only [Layout.place, h.resolve_eq hduplicate layout.scope hlabel, h.length_bytes]
  rfl

/-- **The statement of a decoded instruction writes the bytes that were decoded.** -/
theorem StandsIn.writes (h : i.StandsIn read) (hduplicate : i.descriptor.isDuplicate = false)
    (hlabel : IsLabelling label)
    (hreaches : ∀ target, .relative target ∈ i.values → i.Reaches label target) :
    (Statement.instruction i.descriptor.template.mnemonic.name (i.operandTexts label)).Writes label
      i.address i.bytes where
  ne_stop := by simp
  placed layout := h.place_eq hduplicate hlabel layout
  emitted scope hhere hknows := by
    have hresolve := h.resolve_eq hduplicate scope hlabel
    obtain ⟨bytes, hencode, hbytes⟩ := h.encodeOperands_eq hhere hlabel hknows hreaches
    have hencoding : i.descriptor.resolved.encode scope (operandsOf (i.operandTexts label)) =
        .ok ⟨i.bytes, i.descriptor.resolved.immediate? scope
          (operandsOf (i.operandTexts label))⟩ := by
      rw [Resolved.encode, hencode, ok_bind, ← hbytes]
      rfl
    simp only [Statement.emission?, instructionEmission, hresolve, hencoding, ok_bind]
    exact ⟨_, rfl, rfl⟩

/-- A relative target of a decoded instruction is near. -/
lemma StandsIn.isNear (h : i.StandsIn read) {target : UInt16}
    (hmem : .relative target ∈ i.values) : IsNear i.address target := by
  obtain ⟨hslot, b, rfl⟩ := exists_of_relative_mem_slotValues hmem
  obtain ⟨-, -, hnext⟩ := h.relative hslot
  rw [hnext]
  exact isNear_signExtend _ _

/-- **The statement of a decoded instruction has no bytes** if it is written with a distance that
leads past the last address. -/
theorem StandsIn.fails (h : i.StandsIn read) (hduplicate : i.descriptor.isDuplicate = false)
    (hlabel : IsLabelling label) {target : UInt16} (hmem : .relative target ∈ i.values)
    (hnone : label target = none) (hend : relativePassesEnd i.address target = true) :
    (Statement.instruction i.descriptor.template.mnemonic.name (i.operandTexts label)).Fails label
      i.address
      (.expression (.outOfRange (.ofInt (relativeValue i.address target)) .word)) where
  ne_stop := by simp
  placed layout := ⟨_, h.place_eq hduplicate hlabel layout⟩
  failed scope hhere _ := by
    have hresolve := h.resolve_eq hduplicate scope hlabel
    obtain ⟨hencoded, -, -⟩ := h.relative (exists_of_relative_mem_slotValues hmem).1
    have hencode : i.descriptor.resolved.encode scope (operandsOf (i.operandTexts label)) =
        .error (.expression (.outOfRange (.ofInt (relativeValue i.address target)) .word)) := by
      rw [Resolved.encode, Resolved.filled, operandTexts]
      rw [show i.descriptor.resolved.template = i.descriptor.template from rfl]
      rw [values, encodeOperands_slotValues_eq_error hhere hencoded hmem hnone (h.isNear hmem) hend]
      rfl
    simp only [Statement.emission?, instructionEmission, hresolve, hencode]
    rfl

/-- A statement consists of a mnemonic and operands. -/
lemma toList_text (i : Instruction) (label : UInt16 → Option String) :
    (i.text label).toList = statementChars i.descriptor.template.mnemonic.name.toList
      ((i.operandTexts label).map String.toList) := by
  simp only [text, statementChars, operandTexts, List.isEmpty_map]
  by_cases hnone : i.values.isEmpty
  · rw [if_pos hnone, if_pos hnone]
  · rw [if_neg hnone, if_neg hnone]
    simp [Source.joined]

/-- The instruction with the shadow register exchanges it. -/
lemma StandsIn.text_of_shadow (h : i.StandsIn read)
    (hshadow : .named "af'" ∈ i.descriptor.template.slots) : i.text label = "ex af,af'" := by
  have hd := (Descriptor.of_decode h.decode_eq).1
  have htemplate := Descriptor.template_of_shadow hd hshadow
  rw [← String.toList_inj, toList_text, operandTexts, values, htemplate]
  simp only [slotValues, Slot.value, List.map_cons, List.map_nil, valueText]
  decide

/-- Without the shadow register the operands of an instruction are written as pieces of a
statement. -/
lemma StandsIn.isPiece (h : i.StandsIn read) (hlabel : IsLabelling label)
    (hshadow : .named "af'" ∉ i.descriptor.template.slots) :
    ∀ piece ∈ (i.operandTexts label).map String.toList, IsPiece piece := by
  intro piece hpiece
  rw [operandTexts, List.map_map, List.mem_map] at hpiece
  obtain ⟨value, hvalue, rfl⟩ := hpiece
  obtain ⟨slot, hslot, rest, rfl⟩ := exists_of_mem_slotValues hvalue
  exact isPiece_valueText (h.isSpelled slot hslot) hlabel fun heq => hshadow (heq ▸ hslot)

/-- The statement of an instruction is on one line. -/
lemma StandsIn.isOneLine_text (h : i.StandsIn read) (hlabel : IsLabelling label) :
    Text.IsOneLine (i.text label).toList := by
  by_cases hshadow : .named "af'" ∈ i.descriptor.template.slots
  · rw [h.text_of_shadow hshadow]
    decide
  · rw [toList_text]
    exact Source.isOneLine_statementChars (h.isPiece hlabel hshadow)
      (List.all_eq_true.1 (Mnemonic.name_read _).2.1)

end Instruction

/-! ### Lines -/

/-- Blanks in front of a statement, and a comment behind it, do not belong to it. -/
lemma ofText_indented {text indent : String} {word : List Char} {pieces : List (List Char)}
    (htext : text.toList = statementChars word pieces) {width : Nat}
    (hindent : indent.toList = List.replicate width ' ') (comment : Option String)
    (hpieces : ∀ piece ∈ pieces, IsPiece piece) (hword : ∀ c ∈ word, Expr.isWordChar c)
    (hne : word ≠ []) :
    Source.Line.ofText (indent ++ text ++ Disassembly.commentText comment) =
      .ok ⟨none, String.ofList (statementChars word pieces)⟩ := by
  have hblank : ∀ n, ∀ c ∈ List.replicate n ' ', Text.isBlank c := by
    intro n c hc
    rw [List.eq_of_mem_replicate hc]
    decide
  have hbare : ∀ n, Source.IsBare (List.replicate n ' ') := by
    intro n c hc
    rw [List.eq_of_mem_replicate hc]
    decide
  have hstatement := Source.isBare_statementChars hpieces hword
  have htrimmed := Source.isTrimmed_statementChars hpieces hword hne
  cases comment with
  | none =>
    have hbody : Text.trim (List.replicate width ' ' ++ statementChars word pieces ++
        List.replicate 0 ' ') = statementChars word pieces :=
      Text.trim_append htrimmed (hblank width) (hblank 0)
    refine Source.ofText_statement (((hbare width).append hstatement).append (hbare 0))
      (.inl ?_) hbody hpieces hword
    rw [Disassembly.commentText, String.append_empty, String.toList_append, hindent, htext]
    simp [List.replicate]
  | some comment =>
    have hbody : Text.trim (List.replicate width ' ' ++ statementChars word pieces ++
        List.replicate 2 ' ') = statementChars word pieces :=
      Text.trim_append htrimmed (hblank width) (hblank 2)
    refine Source.ofText_statement (((hbare width).append hstatement).append (hbare 2))
      (.inr ⟨' ' :: comment.toList, ?_⟩) hbody hpieces hword
    rw [Disassembly.commentText, String.toList_append, String.toList_append, hindent, htext]
    simp [List.replicate]

/-- **The line of a decoded instruction is read as an instruction**, indented or not. -/
theorem Instruction.StandsIn.readsAs {i : Instruction} {read : UInt16 → UInt8}
    {label : UInt16 → Option String} (h : i.StandsIn read) (hlabel : IsLabelling label)
    {indent : String} (hindent : indent = "" ∨ indent = "        ") :
    ReadsAs (indent ++ i.text label ++ Disassembly.commentText none) none
      (.instruction i.descriptor.template.mnemonic.name (i.operandTexts label)) := by
  by_cases hshadow : .named "af'" ∈ i.descriptor.template.slots
  · have hd := (Descriptor.of_decode h.decode_eq).1
    have htemplate := Descriptor.template_of_shadow hd hshadow
    have htexts : i.operandTexts label = ["af", "af'"] := by
      simp [operandTexts, values, htemplate, slotValues, Slot.value, valueText]
    rw [h.text_of_shadow hshadow, htexts, htemplate]
    refine ⟨⟨none, "ex af,af'"⟩, ?_, rfl, by decide +kernel⟩
    rcases hindent with rfl | rfl <;> decide +kernel
  · have hpieces := h.isPiece hlabel hshadow
    obtain ⟨hne, hword, hlower, hsegment, hdirective, -⟩ :=
      Mnemonic.name_read i.descriptor.template.mnemonic
    rw [List.all_eq_true] at hword
    have hblanks : ∃ width, indent.toList = List.replicate width ' ' := by
      rcases hindent with rfl | rfl
      · exact ⟨0, rfl⟩
      · exact ⟨8, by decide⟩
    obtain ⟨width, hblanks⟩ := hblanks
    have hline := ofText_indented (toList_text i label) hblanks none hpieces hword hne
    have hstatement := Source.ofText_instruction hpieces hword hne
      (by rwa [hlower, String.ofList_toList]) (by rwa [hlower, String.ofList_toList])
    refine ⟨_, hline, rfl, ?_⟩
    rw [hstatement, String.ofList_toList, List.map_map]
    have hid : String.ofList ∘ String.toList = id := funext fun s => String.ofList_toList
    rw [hid, List.map_id]

/-! ### Data -/

section Data

variable {bytes : List UInt8}

/-- A byte is no string. -/
lemma stringLiteral?_byteNumeral (b : UInt8) :
    Source.stringLiteral? (Text.byteNumeral b) = none := by
  have hnumeral := Text.isNumeral_byteNumeral b
  have htrim : Text.trim (Text.byteNumeral b).toList = (Text.byteNumeral b).toList :=
    Text.trim_eq_self (Text.isTrimmed_of_forall (isPiece_numeral hnumeral).isBlank_eq_false)
  have hhead := hnumeral.head
  rw [Source.stringLiteral?, htrim]
  split
  · next quote rest heq =>
    rw [heq] at hhead
    have hquote : (decide (quote = '\x22') || decide (quote = '\x27')) = false := by
      rw [Bool.or_eq_false_iff, decide_eq_false_iff_not, decide_eq_false_iff_not]
      constructor
      all_goals
        rintro rfl
        simp at hhead
    simp [hquote]
  · rfl

/-- Bytes are counted one by one. -/
lemma byteCounts_byteNumerals (bytes : List UInt8) :
    byteCounts (bytes.map Text.byteNumeral) = bytes.length := by
  induction bytes with
  | nil => rfl
  | cons b bytes ih =>
    rw [List.map_cons, byteCounts, byteCount, stringLiteral?_byteNumeral, ih, List.length_cons,
      Nat.add_comm]

/-- The numerals of bytes have the values of these bytes. -/
lemma dataBytes_byteNumerals (scope : Expr.Scope) (bytes : List UInt8) :
    dataBytes scope (bytes.map Text.byteNumeral) = .ok bytes := by
  induction bytes with
  | nil => rfl
  | cons b bytes ih =>
    have hvalue := Expr.evaluateByte_eq_ok
      (Expr.evaluate_numeral scope (Text.isNumeral_byteNumeral b))
    rw [List.map_cons, dataBytes, operandBytes, stringLiteral?_byteNumeral, ih]
    simp only [hvalue, liftExpr, Except.map, ok_bind]
    rfl

/-- **The statement of data writes them.** -/
theorem writes_bytes (label : UInt16 → Option String) (address : UInt16) (bytes : List UInt8) :
    (Statement.bytes (bytes.map Text.byteNumeral)).Writes label address bytes where
  ne_stop := by simp
  placed layout := by rw [Layout.place, byteCounts_byteNumerals]
  emitted scope _ _ := by
    simp only [Statement.emission?, dataBytes_byteNumerals, ok_bind]
    exact ⟨_, rfl, rfl⟩

/-- Data are a statement, one operand a byte. -/
lemma toList_dataText (hne : bytes ≠ []) : (dataText bytes).toList =
    statementChars ['d', 'b'] (bytes.map fun b => (Text.byteNumeral b).toList) := by
  rw [statementChars, if_neg (by simpa using hne)]
  simp [dataText, Source.joined, Function.comp_def]

/-- The operands of data are pieces of a statement. -/
lemma isPiece_bytes : ∀ piece ∈ bytes.map fun b => (Text.byteNumeral b).toList, IsPiece piece := by
  intro piece hpiece
  obtain ⟨b, -, rfl⟩ := List.mem_map.1 hpiece
  exact isPiece_numeral (Text.isNumeral_byteNumeral b)

/-- The statement of data is on one line. -/
lemma isOneLine_dataText (hne : bytes ≠ []) : Text.IsOneLine (dataText bytes).toList := by
  rw [toList_dataText hne]
  exact Source.isOneLine_statementChars isPiece_bytes (List.all_eq_true.1 (by decide))

/-- **The line of data is read as a directive.** -/
theorem readsAs_dataText (hne : bytes ≠ []) (comment : Option String) :
    ReadsAs ("        " ++ dataText bytes ++ Disassembly.commentText comment) none
      (.bytes (bytes.map Text.byteNumeral)) := by
  have hpieces := @isPiece_bytes bytes
  have hword : ∀ c ∈ ['d', 'b'], Expr.isWordChar c := List.all_eq_true.1 (by decide)
  have hdb : ['d', 'b'] ≠ [] := by decide
  have hblanks : "        ".toList = List.replicate 8 ' ' := by decide
  have hline := ofText_indented (toList_dataText hne) hblanks comment hpieces hword hdb
  have hstatement := @Source.ofText_directive ['d', 'b'] _ hpieces hword .bytes hdb rfl rfl
  have hempty : (bytes.map fun b => (Text.byteNumeral b).toList).isEmpty = false := by
    simpa using hne
  have hall : (bytes.map fun b => (Text.byteNumeral b).toList).any List.isEmpty = false := by
    rw [List.any_eq_false]
    intro piece hpiece
    simpa using (hpieces piece hpiece).ne_nil
  have hback : (bytes.map fun b => (Text.byteNumeral b).toList).map String.ofList =
      bytes.map Text.byteNumeral := by
    rw [List.map_map]
    exact List.map_congr_left fun b _ => String.ofList_toList
  refine ⟨_, hline, rfl, ?_⟩
  rw [hstatement, Statement.ofDirective, Statement.someOperands,
    Source.splitOperandChars_joined hpieces]
  simp only [hempty, hall, Bool.or_self, Bool.false_eq_true, if_false, hback]
  rfl

end Data

end Z80
