import Z80.Disassembly.Buffer
import Z80.Proofs.Addresses
import Z80.Proofs.Catalog.Encoding

/-!
# Encoded instructions decode back

The bytes that an instruction is encoded as lead the decoder back to the same descriptor, whatever
follows them in memory, and the operands that are extracted from them have the values of the
operands in the source text.

## Main definitions

* `Z80.Slot.Gives` — whether a value is that of an operand of a source instruction.
* `Z80.Value.isEncoded` — whether a value is taken from the bytes of an instruction.

## Main results

* `Z80.Resolved.decode_of_encode` — encoded bytes decode to the descriptor they were encoded by.
* `Z80.Resolved.forall₂_values` — the operands extracted from encoded bytes.

## Design

Encoding goes through the template that the source matches, decoding through the template proper.
Both agree in the slots that stand for bytes, so the two sides are compared on these alone.
-/

namespace Z80

/-! ### Relative displacements -/

/-- A displacement byte that is extended is the offset it was made of. -/
lemma signExtend_offsetByte {offset : Int} {b : UInt8} (h : offsetByte offset = .ok b) :
    signExtend b = (Int16.ofInt offset).toUInt16 := by
  unfold offsetByte at h
  split at h
  · simp at h
  · split at h
    · simp at h
    · obtain rfl := Except.ok.inj h
      have hmin : Int8.minValue.toInt = -128 := rfl
      have hmax : Int8.maxValue.toInt = 127 := rfl
      rw [signExtend, Int8.toInt8_toUInt8, Int8.toInt16_ofInt (by omega) (by omega)]

/-- The target of a relative jump, or the distance if it is given by a number. -/
def Slot.GivesTarget (scope : Expr.Scope) (text : String) (target : UInt16) : Prop :=
  if Expr.isPositionDependent text then Expr.evaluateWord scope text = .ok target
  else ∃ offset, Expr.evaluate scope text = .ok offset ∧
    target = scope.here + 2 + offset.toInt16.toUInt16

/-- A displacement byte leads back to the target that it was computed from. -/
lemma givesTarget_of_relativeByte {scope : Expr.Scope} {text : String} {b : UInt8}
    (h : relativeByte scope (scope.here + 1) text = .ok b) :
    Slot.GivesTarget scope text (scope.here + 2 + signExtend b) := by
  unfold relativeByte at h
  unfold Slot.GivesTarget
  split at h
  · next hdependent =>
    obtain ⟨target, htarget, h⟩ := bind_eq_ok_iff.1 h
    rw [if_pos hdependent, liftExpr_eq_ok_iff.1 htarget, signExtend_offsetByte h,
      Int16.ofInt_toInt]
    congr 1
    change target = scope.here + 2 + (target - (scope.here + 1) - 1)
    grind
  · next hdependent =>
    obtain ⟨offset, hoffset, h⟩ := bind_eq_ok_iff.1 h
    rw [if_neg hdependent, signExtend_offsetByte h]
    exact ⟨offset, liftExpr_eq_ok_iff.1 hoffset, rfl⟩

/-! ### Operands -/

/-- Whether a value is that of an operand in a slot, at the location of a scope. -/
def Slot.Gives (scope : Expr.Scope) (operand : Operand) : Slot → Value → Prop
  | byte, .byte b => Expr.evaluateByte scope operand.text = .ok b
  | port, .port b => Expr.evaluateByte scope operand.text = .ok b
  | word, .word w => Expr.evaluateWord scope operand.text = .ok w
  | address, .address w => Expr.evaluateWord scope operand.text = .ok w
  | relative, .relative target => GivesTarget scope operand.text target
  | indexed i, .indexed j displacement =>
    i = j ∧ match operand.shape with
      | .indexed _ (some text) => Expr.evaluateDisplacement scope text = .ok displacement
      | _ => displacement = 0
  | _, _ => False

/-- Whether a value is taken from the bytes of an instruction. -/
def Value.isEncoded : Value → Bool
  | text _ => false
  | byte _ | word _ | port _ | address _ | relative _ | indexed _ _ => true

/-- A slot that stands for bytes has a value taken from them. -/
lemma Slot.isEncoded_value (slot : Slot) (next : UInt16) (bytes : List UInt8) :
    (slot.value next bytes).isEncoded = slot.isEncoded := by
  cases slot <;> rfl

/-- The values taken from the bytes of an instruction are those of the slots that stand for
bytes. -/
lemma filter_slotValues {slots : List Slot} {next : UInt16} {bytes : List UInt8} :
    (slotValues next slots bytes).filter Value.isEncoded =
      slotValues next (slots.filter Slot.isEncoded) bytes := by
  induction slots generalizing bytes with
  | nil => rfl
  | cons slot slots ih =>
    cases h : slot.isEncoded with
    | true =>
      rw [List.filter_cons_of_pos h, slotValues, slotValues,
        List.filter_cons_of_pos (by rwa [Slot.isEncoded_value]), ih]
    | false =>
      rw [List.filter_cons_of_neg (by simp [h]), slotValues,
        List.filter_cons_of_neg (by simp [Slot.isEncoded_value, h]), ih, Slot.width_eq_zero h,
        List.drop_zero]

/-- Operands in slots that stand for no bytes are encoded as none. -/
lemma encodeOperands_filter {scope : Expr.Scope} {filled : List (Slot × Operand)} {here : UInt16} :
    encodeOperands scope here filled =
      encodeOperands scope here (filled.filter fun entry => entry.1.isEncoded) := by
  induction filled generalizing here with
  | nil => rfl
  | cons entry filled ih =>
    obtain ⟨slot, operand⟩ := entry
    cases h : slot.isEncoded with
    | true =>
      simp only [List.filter_cons, h, ↓reduceIte, encodeOperands]
      congr 1
      funext bytes
      rw [ih]
    | false =>
      have hnone : slot.encode scope here operand = .ok [] := by
        cases slot <;> simp_all [Slot.isEncoded, Slot.encode]
      simp only [List.filter_cons, h, Bool.false_eq_true, ↓reduceIte, encodeOperands, hnone,
        ok_bind, ← ih]
      simp

/-- The bytes of an operand give its value back, whatever follows them. -/
lemma Slot.gives_of_encode {scope : Expr.Scope} {here next : UInt16} {operand : Operand}
    {slot : Slot} {bytes : List UInt8} (h : slot.encode scope here operand = .ok bytes)
    (hencoded : slot.isEncoded)
    (hrelative : slot = .relative → here = scope.here + 1 ∧ next = scope.here + 2)
    (rest : List UInt8) : slot.Gives scope operand (slot.value next (bytes ++ rest)) := by
  cases slot with
  | named | literal => simp [isEncoded] at hencoded
  | byte | port =>
    obtain ⟨b, hb, rfl⟩ := map_eq_ok_iff.1 h
    exact liftExpr_eq_ok_iff.1 hb
  | word | address =>
    obtain ⟨w, hw, rfl⟩ := map_eq_ok_iff.1 h
    simpa [Gives, value, wordOf_bytes] using liftExpr_eq_ok_iff.1 hw
  | relative =>
    obtain ⟨b, hb, rfl⟩ := map_eq_ok_iff.1 h
    obtain ⟨rfl, rfl⟩ := hrelative rfl
    exact givesTarget_of_relativeByte hb
  | indexed i =>
    obtain ⟨b, hb, rfl⟩ := map_eq_ok_iff.1 h
    refine ⟨rfl, ?_⟩
    unfold displacementByte at hb
    cases hshape : operand.shape with
    | indexed j displacement =>
      cases displacement with
      | some text =>
        simp only [hshape] at hb
        obtain ⟨o, ho, rfl⟩ := map_eq_ok_iff.1 hb
        exact liftExpr_eq_ok_iff.1 ho
      | none =>
        simp only [hshape] at hb
        obtain rfl := Except.ok.inj hb
        rfl
    | register | enclosed | plain =>
      simp only [hshape] at hb
      obtain rfl := Except.ok.inj hb
      rfl

/-- The bytes of operands give their values back, whatever follows them. -/
lemma forall₂_slotValues {scope : Expr.Scope} {next : UInt16} :
    ∀ {filled : List (Slot × Operand)} {here : UInt16} {bytes : List UInt8},
      encodeOperands scope here filled = .ok bytes →
      (∀ entry ∈ filled, entry.1.isEncoded) →
      (.relative ∈ filled.map Prod.fst →
        filled.length = 1 ∧ here = scope.here + 1 ∧ next = scope.here + 2) →
      ∀ rest, List.Forall₂ (fun entry value => entry.1.Gives scope entry.2 value) filled
        (slotValues next (filled.map Prod.fst) (bytes ++ rest))
  | [], _, _, _, _, _, _ => .nil
  | (slot, operand) :: filled, here, bytes, h, hencoded, hrelative, rest => by
    obtain ⟨first, hfirst, h⟩ := bind_eq_ok_iff.1 h
    obtain ⟨more, hmore, h⟩ := bind_eq_ok_iff.1 h
    obtain rfl := Except.ok.inj h
    have hdrop : (first ++ (more ++ rest)).drop slot.width = more ++ rest := by
      rw [← Slot.length_encode hfirst, List.drop_left]
    rw [List.append_assoc, List.map_cons, slotValues, hdrop]
    refine .cons (Slot.gives_of_encode hfirst (hencoded _ List.mem_cons_self) (fun hslot => ?_) _)
      (forall₂_slotValues hmore (fun entry hmem => hencoded _ (List.mem_cons_of_mem _ hmem))
        (fun hmem => ?_) rest)
    · exact (hrelative (by simp [hslot])).2
    -- a relative operand stands alone, so there is none behind the first
    · have hlength := (hrelative (List.mem_cons_of_mem _ hmem)).1
      obtain rfl : filled = [] := by simpa using hlength
      simp at hmem

/-! ### Instructions -/

namespace Resolved

variable {r : Resolved} {scope before : Expr.Scope} {word : String} {operands : List Operand}
  {e : Encoding}

/-- The operands of an instruction in slots that stand for bytes. -/
def encodedOperands (r : Resolved) (operands : List Operand) : List (Slot × Operand) :=
  (r.filled operands).filter fun entry => entry.1.isEncoded

/-- Those slots are the same by whichever template the instruction is written. -/
lemma Denotes.map_fst_encodedOperands (h : r.Denotes before word operands) :
    (r.encodedOperands operands).map Prod.fst = r.descriptor.template.encoded := by
  have hslots : (r.filled operands).map Prod.fst = r.template.slots :=
    List.map_fst_zip (Nat.le_of_eq h.length_slots)
  rw [← (Descriptor.isLaidOut_of_mem_all h.mem_all).encoded_eq _ h.mem_spellings,
    Template.encoded, ← hslots, List.filter_map]
  rfl

/-- An encoded instruction is a prefix and opcode around the bytes of its operands. -/
lemma exists_of_encode (he : r.encode scope operands = .ok e) :
    ∃ bytes, encodeOperands scope (scope.here + UInt16.ofNat r.head.length)
        (r.encodedOperands operands) = .ok bytes ∧ e.bytes = r.head ++ bytes ++ r.tail := by
  obtain ⟨bytes, hbytes, he⟩ := bind_eq_ok_iff.1 he
  obtain rfl := Except.ok.inj he
  rw [encodeOperands_filter] at hbytes
  exact ⟨bytes, hbytes, rfl⟩

/-- **The operands extracted from an encoded instruction** have the values of the operands in the
source text. -/
theorem forall₂_values (h : r.Denotes before word operands)
    (he : r.encode scope operands = .ok e) :
    List.Forall₂ (fun entry value => entry.1.Gives scope entry.2 value)
      (r.encodedOperands operands)
      ((⟨scope.here, e.bytes, r.descriptor⟩ : Instruction).values.filter Value.isEncoded) := by
  obtain ⟨bytes, hbytes, hall⟩ := exists_of_encode he
  have hsize := length_encode h he
  have hlaid := Descriptor.isLaidOut_of_mem_all h.mem_all
  have hhead : r.head.length = r.descriptor.space.operandOffset := by
    unfold head
    cases r.descriptor.space <;> rfl
  rw [Instruction.values, filter_slotValues, hall, ← hhead, List.append_assoc, List.drop_left,
    ← Template.encoded, ← h.map_fst_encodedOperands]
  refine forall₂_slotValues hbytes (fun entry hmem => (List.mem_filter.1 hmem).2)
    (fun hmem => ?_) r.tail
  rw [h.map_fst_encodedOperands] at hmem
  obtain ⟨hspace, hencoded⟩ := hlaid.relative hmem
  have hlength := congrArg List.length h.map_fst_encodedOperands
  rw [hencoded, List.length_map] at hlength
  have htwo : (r.head ++ (bytes ++ r.tail)).length = 2 := by
    rw [← List.append_assoc, ← hall, hsize, Descriptor.size, ← Template.totalWidth_encoded,
      hencoded, hspace]
    rfl
  refine ⟨hlength, ?_, ?_⟩
  · rw [hhead, hspace]
    rfl
  · rw [Instruction.next, Instruction.size]
    rw [htwo]
    rfl

/-- The opcode byte of an encoded instruction stands where its space has it. -/
lemma getElem?_opcodeOffset (h : r.Denotes before word operands)
    (he : r.encode scope operands = .ok e) :
    e.bytes[r.descriptor.space.opcodeOffset]? = some r.descriptor.byte := by
  obtain ⟨bytes, hbytes, hall⟩ := exists_of_encode he
  have hlength := length_encodeOperands hbytes
  rw [h.map_fst_encodedOperands] at hlength
  rw [hall, head, tail]
  cases hspace : r.descriptor.space with
  | main | bit | index i | misc => simp [Space.prefixBytes, Space.opcodeOffset]
  | indexBit i =>
    rw [(Descriptor.isLaidOut_of_mem_all h.mem_all).indexBit i hspace] at hlength
    obtain ⟨b, rfl⟩ := List.length_eq_one_iff.1 hlength
    rfl

/-- The first bytes of an encoded instruction select its space. -/
lemma startingAt_of_encode (h : r.Denotes before word operands)
    (he : r.encode scope operands = .ok e) {read : UInt16 → UInt8} {address : UInt16}
    (hread : readBytes read address e.bytes.length = e.bytes) :
    Space.startingAt read address = r.descriptor.space := by
  have hlaid := Descriptor.isLaidOut_of_mem_all h.mem_all
  have hopcode := getElem?_opcodeOffset h he
  obtain ⟨bytes, -, hall⟩ := exists_of_encode he
  have hfirst : read address = (r.descriptor.space.prefixBytes ++ [r.descriptor.byte]).headD 0 := by
    rw [← read_eq_of_readBytes hread (i := 0)
      (b := (r.descriptor.space.prefixBytes ++ [r.descriptor.byte]).headD 0)]
    · simp
    · rw [hall, head]
      cases r.descriptor.space <;> simp [Space.prefixBytes]
  rw [Space.startingAt, hfirst, hlaid.select]
  cases hspace : r.descriptor.space with
  | main | bit | misc => rfl
  | index i =>
    rw [hspace] at hopcode
    have hsecond : read (address + 1) = r.descriptor.byte := read_eq_of_readBytes hread hopcode
    exact if_neg (hsecond ▸ hlaid.byte_ne i hspace)
  | indexBit i =>
    have hsecond : read (address + 1) = 0xCB :=
      read_eq_of_readBytes hread (i := 1) (by simp [hall, head, hspace, Space.prefixBytes])
    exact if_pos hsecond

/-- **Encoded bytes decode to the descriptor they were encoded by**, whatever else is in memory. -/
theorem decode_of_encode (h : r.Denotes before word operands)
    (he : r.encode scope operands = .ok e) {read : UInt16 → UInt8} {address : UInt16}
    (hread : readBytes read address e.bytes.length = e.bytes) :
    Descriptor.decode read address = .ok r.descriptor := by
  have hopcode : r.descriptor.space.opcodeAt read address = r.descriptor.byte :=
    read_eq_of_readBytes hread (getElem?_opcodeOffset h he)
  simp only [Descriptor.decode, startingAt_of_encode h he hread, hopcode,
    Descriptor.mem_all_iff.1 h.mem_all]

end Resolved

end Z80
