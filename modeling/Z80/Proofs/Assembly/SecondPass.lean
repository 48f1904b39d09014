import Mathlib.Tactic.Common
import Z80.Assembly.Image
import Z80.Proofs.Result

/-!
# What the second pass writes

A line of the second pass either writes bytes at its location or, if it is a directive without
bytes, changes the location counters.  Either way one entry is added to the listing.

## Main definitions

* `Z80.Fault.concernsOperand` — whether a fault lies in the value of an operand.
* `Z80.FailsOnOperands` — a computation that fails only for the value of an operand.

## Main results

* `Z80.emission?_eq_error` — why a statement has no bytes.
* `Z80.Image.emit_eq_ok_iff`, `Z80.Image.direct_eq_ok` — writing bytes, and the other directives.
* `Z80.Image.writeLine_eq_ok_iff` — what a line does.
* `Z80.Image.writeLines_append` — lines in two portions.
* `Z80.length_dataBytes`, `Z80.length_dataWords` — the number of bytes of data.
-/

namespace Z80

open Source (Statement)

/-! ### Data -/

/-- A string is as many bytes as it has characters. -/
lemma length_stringBytes : ∀ {chars : List Char} {bytes : List UInt8},
    stringBytes chars = .ok bytes → bytes.length = chars.length
  | [], _, h => by
    obtain rfl := Except.ok.inj h
    rfl
  | c :: cs, bytes, h => by
    unfold stringBytes at h
    split at h
    · obtain ⟨rest, hrest, rfl⟩ := map_eq_ok_iff.1 h
      rw [List.length_cons, List.length_cons, length_stringBytes hrest]
    · simp at h

/-- An operand of a bytes directive is as many bytes as it is counted for. -/
lemma length_operandBytes {scope : Expr.Scope} {operand : String} {bytes : List UInt8}
    (h : operandBytes scope operand = .ok bytes) : bytes.length = byteCount operand := by
  unfold operandBytes at h
  unfold byteCount
  cases hstring : Source.stringLiteral? operand with
  | some chars =>
    rw [hstring] at h
    exact length_stringBytes h
  | none =>
    rw [hstring] at h
    obtain ⟨b, -, rfl⟩ := map_eq_ok_iff.1 h
    rfl

/-- The operands of a bytes directive are as many bytes as they are counted for. -/
theorem length_dataBytes {scope : Expr.Scope} : ∀ {operands : List String} {bytes : List UInt8},
    dataBytes scope operands = .ok bytes → bytes.length = byteCounts operands
  | [], _, h => by
    obtain rfl := Except.ok.inj h
    rfl
  | operand :: more, bytes, h => by
    obtain ⟨first, hfirst, h⟩ := bind_eq_ok_iff.1 h
    obtain ⟨rest, hrest, h⟩ := bind_eq_ok_iff.1 h
    obtain rfl := Except.ok.inj h
    rw [List.length_append, length_operandBytes hfirst, length_dataBytes hrest, byteCounts]

/-- Each operand of a words directive is two bytes. -/
theorem length_dataWords {scope : Expr.Scope} : ∀ {operands : List String} {bytes : List UInt8},
    dataWords scope operands = .ok bytes → bytes.length = 2 * operands.length
  | [], _, h => by
    obtain rfl := Except.ok.inj h
    rfl
  | operand :: more, bytes, h => by
    obtain ⟨word, -, h⟩ := bind_eq_ok_iff.1 h
    obtain ⟨rest, hrest, h⟩ := bind_eq_ok_iff.1 h
    obtain rfl := Except.ok.inj h
    have := length_dataWords hrest
    simp only [List.length_cons]
    omega

/-- An instruction is emitted as it is encoded. -/
lemma instructionEmission_eq_ok {scope : Expr.Scope} {word : String} {operands : List Operand}
    {emission : Emission} (h : instructionEmission scope word operands = .ok emission) :
    ∃ resolved encoding, resolve scope word operands = .ok resolved ∧
      resolved.encode scope operands = .ok encoding ∧ emission.bytes = encoding.bytes ∧
      emission.isListed = true := by
  unfold instructionEmission at h
  split at h
  · simp at h
  · next resolved hresolved =>
    obtain ⟨encoding, hencoding, h⟩ := bind_eq_ok_iff.1 h
    obtain rfl := Except.ok.inj h
    exact ⟨resolved, encoding, hresolved, hencoding, rfl, rfl⟩

/-! ### Faults of operands -/

/-- Whether a fault lies in the value of an operand. -/
def Fault.concernsOperand : Fault → Bool
  | expression _ | nonAscii _ | offsetTooLarge _ | offsetTooSmall _ => true
  | _ => false

/-- A computation that fails only for the value of an operand. -/
def FailsOnOperands {α : Type} (x : Except Fault α) : Prop :=
  ∀ fault, x = .error fault → fault.concernsOperand = true

namespace FailsOnOperands

variable {α β : Type}

lemma ok (a : α) : FailsOnOperands (.ok a) := by
  rintro _ ⟨⟩

lemma bind {x : Except Fault α} {f : α → Except Fault β} (hx : FailsOnOperands x)
    (hf : ∀ a, x = .ok a → FailsOnOperands (f a)) : FailsOnOperands (x >>= f) := by
  intro fault h
  rcases bind_eq_error_iff.1 h with h | ⟨a, ha, h⟩
  · exact hx fault h
  · exact hf a ha fault h

lemma map {x : Except Fault α} (f : α → β) (hx : FailsOnOperands x) : FailsOnOperands (x.map f) :=
  fun fault h => hx fault (map_eq_error_iff.1 h)

lemma liftExpr (x : Except Expr.Error α) : FailsOnOperands (Z80.liftExpr x) := by
  intro fault h
  obtain ⟨error, -, rfl⟩ := liftExpr_eq_error_iff.1 h
  rfl

lemma stringBytes : ∀ chars : List Char, FailsOnOperands (Z80.stringBytes chars)
  | [] => .ok _
  | c :: cs => by
    unfold Z80.stringBytes
    split
    · exact (stringBytes cs).map _
    · rintro _ ⟨⟩
      rfl

lemma dataBytes (scope : Expr.Scope) :
    ∀ operands : List String, FailsOnOperands (Z80.dataBytes scope operands)
  | [] => .ok _
  | operand :: more => by
    refine .bind ?_ fun _ _ => (dataBytes scope more).bind fun _ _ => .ok _
    unfold operandBytes
    split
    · exact stringBytes _
    · exact (liftExpr _).map _

lemma dataWords (scope : Expr.Scope) :
    ∀ operands : List String, FailsOnOperands (Z80.dataWords scope operands)
  | [] => .ok _
  | _ :: more => (liftExpr _).bind fun _ _ => (dataWords scope more).bind fun _ _ => .ok _

lemma offsetByte (offset : Int) : FailsOnOperands (Z80.offsetByte offset) := by
  unfold Z80.offsetByte
  split
  · rintro _ ⟨⟩
    rfl
  · split
    · rintro _ ⟨⟩
      rfl
    · exact .ok _

lemma encodeSlot (scope : Expr.Scope) (here : UInt16) (operand : Operand) (slot : Slot) :
    FailsOnOperands (slot.encode scope here operand) := by
  cases slot with
  | named | literal => exact .ok _
  | byte | port | word | address => exact (liftExpr _).map _
  | relative =>
    refine .map _ ?_
    unfold relativeByte
    split
    · exact (liftExpr _).bind fun _ _ => offsetByte _
    · exact (liftExpr _).bind fun _ _ => offsetByte _
  | indexed =>
    refine .map _ ?_
    unfold displacementByte
    split
    · exact (liftExpr _).map _
    · exact .ok _

lemma encodeOperands (scope : Expr.Scope) : ∀ (filled : List (Slot × Operand)) (here : UInt16),
    FailsOnOperands (Z80.encodeOperands scope here filled)
  | [], _ => .ok _
  | (slot, operand) :: more, here =>
    (encodeSlot scope here operand slot).bind fun _ _ =>
      (encodeOperands scope more _).bind fun _ _ => .ok _

lemma encode (r : Resolved) (scope : Expr.Scope) (operands : List Operand) :
    FailsOnOperands (r.encode scope operands) :=
  (encodeOperands scope _ _).bind fun _ _ => .ok _

/-- The operand of an origin fails as an expression. -/
lemma direct (image : Image) (scope : Expr.Scope) (statement : Statement) :
    FailsOnOperands (image.direct scope statement) := by
  unfold Image.direct
  split
  · exact .ok _
  · exact (liftExpr _).bind fun _ _ => .ok _
  · exact .ok _

end FailsOnOperands

/-- **A statement has no bytes** if an operand has no value, or if it is an instruction that denotes
no encoding. -/
theorem emission?_eq_error {scope : Expr.Scope} {statement : Statement} {fault : Fault}
    (h : statement.emission? scope = .error fault) :
    fault.concernsOperand = true ∨ ∃ word texts error,
      statement = .instruction word texts ∧
      resolve scope word (operandsOf texts) = .error error ∧ fault = .instruction error := by
  cases statement with
  | empty | stop | segment | origin => simp [Source.Statement.emission?] at h
  | bytes operands =>
    exact .inl (((FailsOnOperands.dataBytes _ _).bind fun _ _ => .ok _) fault h)
  | words operands =>
    exact .inl (((FailsOnOperands.dataWords _ _).bind fun _ _ => .ok _) fault h)
  | space text => exact .inl (((FailsOnOperands.liftExpr _).bind fun _ _ => .ok _) fault h)
  | instruction word texts =>
    have hfails := map_eq_error_iff.1 h
    unfold instructionEmission at hfails
    split at hfails
    · next error herror =>
      exact .inr ⟨word, texts, error, rfl, herror, (Except.error.inj hfails).symm⟩
    · exact .inl (((FailsOnOperands.encode _ _ _).bind fun _ _ => .ok _) fault hfails)

/-! ### Lines -/

namespace Image

variable {image after : Image} {symbols : SymbolTable} {line : PreparedLine}

/-- Bytes are written at the location, which moves on behind them. -/
lemma emit_eq_ok_iff {number : Nat} {bytes : List UInt8} :
    image.emit number bytes = .ok after ↔
      ∃ memory origins,
        claim number image.memory image.origins image.segments.location bytes =
          .ok (memory, origins) ∧
        after = ⟨image.segments.advance (UInt16.ofNat bytes.length), memory, origins,
          image.entries⟩ := by
  obtain ⟨segments, memory, origins, entries⟩ := image
  simp only [emit]
  cases claim number memory origins segments.location bytes with
  | error fault => simp
  | ok claimed => simp [eq_comm, Prod.ext_iff]

/-- Bytes are not written if they cannot be claimed. -/
lemma emit_eq_error_iff {number : Nat} {bytes : List UInt8} {fault : Fault} :
    image.emit number bytes = .error fault ↔
      claim number image.memory image.origins image.segments.location bytes = .error fault := by
  obtain ⟨segments, memory, origins, entries⟩ := image
  simp only [emit]
  cases claim number memory origins segments.location bytes with
  | error fault => simp
  | ok claimed => simp

/-- Bytes that cannot be claimed overlap others. -/
lemma claim_eq_error {number : Nat} {bytes : List UInt8} {memory : Memory} {origins : OriginMap}
    {location : UInt16} {fault : Fault}
    (h : claim number memory origins location bytes = .error fault) :
    ∃ address previous, fault = .duplicateCode address previous := by
  induction bytes generalizing memory origins location with
  | nil => simp [claim] at h
  | cons b bytes ih =>
    unfold claim at h
    split at h
    · exact ⟨_, _, (Except.error.inj h).symm⟩
    · exact ih h

/-- A statement without bytes changes at most the location counters. -/
lemma direct_eq_ok {scope : Expr.Scope} {statement : Statement} {address : Option UInt16}
    (h : image.direct scope statement = .ok (after, address)) :
    after = { image with segments := after.segments } := by
  unfold direct at h
  split at h
  · obtain ⟨rfl, rfl⟩ := Prod.mk.inj (Except.ok.inj h)
    rfl
  · obtain ⟨w, -, h⟩ := bind_eq_ok_iff.1 h
    obtain ⟨rfl, rfl⟩ := Prod.mk.inj (Except.ok.inj h)
    rfl
  · obtain ⟨rfl, rfl⟩ := Prod.mk.inj (Except.ok.inj h)
    rfl

/-- **A line either changes the location counters or writes its bytes**, and adds an entry to the
listing. -/
theorem writeLine_eq_ok_iff :
    image.writeLine symbols line = .ok after ↔
      (∃ address moved,
        line.statement.emission? (symbols.scope image.segments.location) = .ok none ∧
        image.direct (symbols.scope image.segments.location) line.statement =
          .ok (moved, address) ∧
        after = moved.list ⟨line.number, address, [], line.source, none⟩) ∨
      (∃ emission written,
        line.statement.emission? (symbols.scope image.segments.location) = .ok (some emission) ∧
        image.emit line.number emission.bytes = .ok written ∧
        after = written.list ⟨line.number, some image.segments.location,
          if emission.isListed then emission.bytes else [], line.source, emission.annotation⟩) := by
  unfold writeLine
  simp only [bind_eq_ok_iff]
  constructor
  · rintro ⟨emission?, hemission, h⟩
    cases emission? with
    | none =>
      obtain ⟨⟨moved, address⟩, hmoved, h⟩ := bind_eq_ok_iff.1 h
      exact .inl ⟨address, moved, hemission, hmoved, (Except.ok.inj h).symm⟩
    | some emission =>
      obtain ⟨written, hwritten, h⟩ := bind_eq_ok_iff.1 h
      exact .inr ⟨emission, written, hemission, hwritten, (Except.ok.inj h).symm⟩
  · rintro (⟨address, moved, hemission, hmoved, rfl⟩ |
      ⟨emission, written, hemission, hwritten, rfl⟩)
    · exact ⟨none, hemission, bind_eq_ok_iff.2 ⟨_, hmoved, rfl⟩⟩
    · exact ⟨some emission, hemission, bind_eq_ok_iff.2 ⟨_, hwritten, rfl⟩⟩

/-- A line fails if its bytes have no values, if it cannot change the location counters, or if its
bytes cannot be written. -/
lemma writeLine_eq_error_iff {fault : Fault} :
    image.writeLine symbols line = .error fault ↔
      line.statement.emission? (symbols.scope image.segments.location) = .error fault ∨
      (line.statement.emission? (symbols.scope image.segments.location) = .ok none ∧
        image.direct (symbols.scope image.segments.location) line.statement = .error fault) ∨
      ∃ emission,
        line.statement.emission? (symbols.scope image.segments.location) = .ok (some emission) ∧
        image.emit line.number emission.bytes = .error fault := by
  unfold writeLine
  rw [bind_eq_error_iff]
  refine or_congr_right ⟨?_, ?_⟩
  · rintro ⟨emission?, hemission, h⟩
    cases emission? with
    | none =>
      rcases bind_eq_error_iff.1 h with hmoved | ⟨_, -, h⟩
      · exact .inl ⟨hemission, hmoved⟩
      · simp [pure, Except.pure] at h
    | some emission =>
      rcases bind_eq_error_iff.1 h with hwritten | ⟨_, -, h⟩
      · exact .inr ⟨emission, hemission, hwritten⟩
      · simp [pure, Except.pure] at h
  · rintro (⟨hemission, hmoved⟩ | ⟨emission, hemission, hwritten⟩)
    · exact ⟨none, hemission, bind_eq_error_iff.2 (.inl hmoved)⟩
    · exact ⟨some emission, hemission, bind_eq_error_iff.2 (.inl hwritten)⟩

/-- The first line is written first. -/
lemma writeLines_cons_eq_ok_iff {more : List PreparedLine} :
    image.writeLines symbols (line :: more) = .ok after ↔
      ∃ next, image.writeLine symbols line = .ok next ∧
        next.writeLines symbols more = .ok after := by
  rw [writeLines]
  cases image.writeLine symbols line with
  | error fault => simp
  | ok next => simp

/-- **The lines of two portions are written one portion after the other.** -/
theorem writeLines_append (image : Image) (symbols : SymbolTable) (lines more : List PreparedLine) :
    image.writeLines symbols (lines ++ more) =
      image.writeLines symbols lines >>= fun next => next.writeLines symbols more := by
  induction lines generalizing image with
  | nil => rfl
  | cons line lines ih =>
    rw [List.cons_append, writeLines, writeLines]
    cases image.writeLine symbols line with
    | error fault => rfl
    | ok next => exact ih next

/-- The lines of two portions are written if the lines of both are. -/
lemma writeLines_append_eq_ok_iff {lines more : List PreparedLine} :
    image.writeLines symbols (lines ++ more) = .ok after ↔
      ∃ next, image.writeLines symbols lines = .ok next ∧
        next.writeLines symbols more = .ok after := by
  rw [writeLines_append, bind_eq_ok_iff]

end Image

end Z80
