import Z80.Assembly.Encode
import Z80.Proofs.Expr.Mention

/-!
# Operands that say the same everywhere

A text without `$` and without names has the same value, or the same fault, under all names and at
every location.  So a relative operand that is written like this stands for the same byte wherever
its instruction is put, and so does a whole instruction all of whose operands are.

## Main definitions

* `Z80.Slot.source?` — the text from which the bytes of an operand are computed.
* `Z80.Resolved.IsRelocatable` — an instruction all of whose bytes are computed from such texts.

## Main results

* `Z80.relocatable_text` — a text has the same value and is the same relative operand everywhere.
* `Z80.Resolved.encode_relocated` — a relocatable instruction is encoded alike everywhere.

## Design

A relative operand is a displacement or a target, and which of the two is read off its text alone.
Only a target is measured from where it stands.
-/

namespace Z80

open Z80.Expr (Scope isPositionDependent)

variable {text : String}

/-! ### Relative operands -/

/-- A text that says the same everywhere is a displacement, wherever it stands. -/
lemma relativeByte_of_isPositionDependent (h : isPositionDependent text = false) (s t : Scope)
    (here there : UInt16) : relativeByte s here text = relativeByte t there text := by
  have hvalue : Expr.evaluate s text = Expr.evaluate t text :=
    Expr.evaluate_of_isPositionDependent h
  unfold relativeByte
  rw [h, if_neg Bool.false_ne_true, if_neg Bool.false_ne_true, hvalue]

/-- **A text without `$` and names says the same everywhere.**  For any two symbol tables, at any
two locations, it has the same value or the same fault, and as a relative operand it is encoded as
the same byte or refused for the same reason. -/
theorem relocatable_text (h : isPositionDependent text = false) (s t : Scope) :
    Expr.evaluate s text = Expr.evaluate t text ∧
      ∀ here there : UInt16, relativeByte s here text = relativeByte t there text :=
  ⟨Expr.evaluate_of_isPositionDependent h, relativeByte_of_isPositionDependent h s t⟩

/-- A name in front of a group may be a function, and functions are no names. -/
theorem relocatable_text_function :
    isPositionDependent "-high(1234h)" = false ∧
      relativeByte ⟨fun _ => none, 0x0100⟩ 0x0101 "-high(1234h)" =
        relativeByte ⟨fun _ => some 7, 0x8000⟩ 0x8001 "-high(1234h)" := by
  have h : isPositionDependent "-high(1234h)" = false := by decide +kernel
  exact ⟨h, (relocatable_text h ⟨fun _ => none, 0x0100⟩ ⟨fun _ => some 7, 0x8000⟩).2 0x0101 0x8001⟩

/-! ### Instructions -/

/-- The text from which the bytes of an operand in a slot are computed, if there is one. -/
def Slot.source? (operand : Operand) : Slot → Option String
  | named _ | literal _ => none
  | byte | port | word | address | relative => some operand.text
  | indexed _ =>
    match operand.shape with
    | .indexed _ displacement? => displacement?
    | _ => none

/-- An operand is encoded alike everywhere if its bytes are computed from a text that says the same
everywhere. -/
lemma Slot.encode_relocated {slot : Slot} {operand : Operand}
    (h : ∀ text ∈ slot.source? operand, isPositionDependent text = false) (s t : Scope)
    (here there : UInt16) : slot.encode s here operand = slot.encode t there operand := by
  cases slot with
  | named | literal => rfl
  | byte | port =>
    have hvalue := Expr.evaluate_of_isPositionDependent (h _ rfl) (s := s) (t := t)
    simp only [Slot.encode, Expr.evaluateByte, hvalue]
  | word | address =>
    have hvalue := Expr.evaluate_of_isPositionDependent (h _ rfl) (s := s) (t := t)
    simp only [Slot.encode, Expr.evaluateWord, hvalue]
  | relative =>
    rw [Slot.encode, Slot.encode, relativeByte_of_isPositionDependent (h _ rfl) s t here there]
  | indexed i =>
    simp only [Slot.encode, displacementByte]
    simp only [Slot.source?] at h
    split
    · next hshape =>
      rw [hshape] at h
      have hvalue := Expr.evaluate_of_isPositionDependent (h _ rfl) (s := s) (t := t)
      simp only [Expr.evaluateDisplacement, hvalue]
    · rfl

/-- Operands are encoded alike everywhere if each of them is. -/
lemma encodeOperands_relocated {filled : List (Slot × Operand)}
    (h : ∀ entry ∈ filled, ∀ text ∈ entry.1.source? entry.2, isPositionDependent text = false)
    (s t : Scope) (here there : UInt16) :
    encodeOperands s here filled = encodeOperands t there filled := by
  induction filled generalizing here there with
  | nil => rfl
  | cons entry more ih =>
    obtain ⟨slot, operand⟩ := entry
    obtain ⟨hfirst, hmore⟩ := List.forall_mem_cons.1 h
    rw [encodeOperands, encodeOperands, Slot.encode_relocated hfirst s t here there]
    refine bind_congr fun bytes => ?_
    rw [ih hmore (here + UInt16.ofNat bytes.length) (there + UInt16.ofNat bytes.length)]

namespace Resolved

variable {r : Resolved} {operands : List Operand}

/-- Whether the bytes of an instruction are computed from texts that say the same everywhere. -/
def IsRelocatable (r : Resolved) (operands : List Operand) : Prop :=
  ∀ entry ∈ r.filled operands, ∀ text ∈ entry.1.source? entry.2, isPositionDependent text = false

/-- The first byte among the operands of a relocatable instruction. -/
lemma immediate?_relocated (h : r.IsRelocatable operands) (s t : Scope) :
    r.immediate? s operands = r.immediate? t operands := by
  unfold immediate?
  split
  · next slot operand hfound =>
    have hslot : slot = .byte := by simpa using List.find?_some hfound
    subst hslot
    have hvalue := Expr.evaluate_of_isPositionDependent
      (h _ (List.mem_of_find?_eq_some hfound) _ rfl) (s := s) (t := t)
    simp only [Expr.evaluateByte, hvalue]
  · rfl

/-- **A relocatable instruction is encoded alike everywhere**, or refused for the same reason. -/
theorem encode_relocated (h : r.IsRelocatable operands) (s t : Scope) :
    r.encode s operands = r.encode t operands := by
  have hoperands := encodeOperands_relocated h s t (s.here + UInt16.ofNat r.head.length)
    (t.here + UInt16.ofNat r.head.length)
  rw [encode, encode, hoperands, immediate?_relocated h s t]

end Resolved

end Z80
