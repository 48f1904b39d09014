import Z80.Disassembly.Trace
import Z80.Proofs.Disassembly.Buffer
import Z80.Proofs.Disassembly.Labels

/-!
# What a trace has found

However paths fork and meet, an instruction that a trace has found is one of the buffer, its
statement is the text of that instruction, and the label in that text is one that the trace has
given to the target.

## Main definitions

* `Z80.Labels.Spell` — a text as that of an instruction under some of the labels.
* `Z80.Trace.Sound` — what holds of a trace of a buffer.

## Main results

* `Z80.Trace.Sound.follow`, `Z80.Trace.Sound.walk` — an instruction, and a path, keep a trace
  sound.
* `Z80.Trace.sound_run` — the trace of a buffer is sound.

## Design

Labels may be given behind the statement that uses them, but never instead of others.  So a
statement is said to be written under *some* of the labels known, which stays true when further
labels are given.
-/

namespace Z80

/-- Whether a text is that of an instruction under some of the labels, the target among them. -/
def Labels.Spell (labels : Labels) (i : Instruction) (text : String) : Prop :=
  ∃ label : UInt16 → Option String, text = i.text label ∧
    (∀ (address : UInt16) (name : String), label address = some name →
      labels.find? address = some name) ∧
    ∀ target, i.target? = some target → (label target).isSome

/-- A text stays one under some of the labels when further labels are given. -/
lemma Labels.Extends.spell {more labels : Labels} (h : more.Extends labels) {i : Instruction}
    {text : String} (hspell : labels.Spell i text) : more.Spell i text := by
  obtain ⟨label, htext, hlabel, htarget⟩ := hspell
  refine ⟨label, htext, fun address name hname => ?_, htarget⟩
  exact h address name (hlabel address name hname)

namespace Trace

variable {trace : Trace} {buffer : Buffer} {i : Instruction}

/-- What holds of a trace of a buffer: its labels are numbered, and each instruction found is one of
the buffer with its text. -/
structure Sound (trace : Trace) (buffer : Buffer) : Prop where
  numbered : trace.labels.IsNumbered
  start : ∀ {address : UInt16} {i : Instruction} {text : String},
    trace.marks.get address = .start i text →
      buffer.decode? address = some i ∧ trace.labels.Spell i text

/-- Nothing is found in the trace of nothing. -/
lemma sound_empty (buffer : Buffer) : empty.Sound buffer where
  numbered := Labels.isNumbered_empty
  start h := by simp [empty] at h

/-! ### Paths -/

/-- A trace with the same marks and labels is as sound. -/
lemma Sound.congr {other : Trace} (h : trace.Sound buffer) (hmarks : other.marks = trace.marks)
    (hlabels : other.labels = trace.labels) : other.Sound buffer where
  numbered := hlabels ▸ h.numbered
  start hstart := by
    rw [hmarks] at hstart
    rw [hlabels]
    exact h.start hstart

/-- Waiting addresses are neither marked nor labelled. -/
lemma labels_queue (trace : Trace) (address : UInt16) :
    (trace.queue address).marks = trace.marks ∧ (trace.queue address).labels = trace.labels := by
  unfold queue
  split
  · exact ⟨rfl, rfl⟩
  · exact ⟨rfl, rfl⟩

/-- An address that waits keeps a trace sound. -/
lemma Sound.queue (h : trace.Sound buffer) (address : UInt16) :
    (trace.queue address).Sound buffer :=
  h.congr (labels_queue trace address).1 (labels_queue trace address).2

/-- An address that is walked keeps a trace sound. -/
lemma Sound.enter (h : trace.Sound buffer) (address : UInt16) :
    (trace.enter address).Sound buffer :=
  h.congr rfl rfl

/-- The first of the waiting addresses can be taken off. -/
lemma Sound.next? (h : trace.Sound buffer) {rest : Trace} {address : UInt16}
    (hnext : trace.next? = some (rest, address)) : rest.Sound buffer := by
  obtain ⟨marks, paths, waiting, labels⟩ := trace
  cases waiting with
  | nil => simp [Trace.next?] at hnext
  | cons first waiting =>
    obtain ⟨rfl, -⟩ := Prod.mk.inj (Option.some.inj hnext)
    exact h.congr rfl rfl

/-! ### Instructions -/

/-- The labels behind a target are those in front of it with one for the target. -/
lemma labels_label (trace : Trace) (target : UInt16) (category : Category) :
    (trace.label target category).marks = trace.marks ∧
      ∃ kind, (trace.label target category).labels = trace.labels.assign target kind :=
  ⟨rfl, _, rfl⟩

/-- A label for a target keeps a trace sound. -/
lemma Sound.label (h : trace.Sound buffer) (target : UInt16) (category : Category) :
    (trace.label target category).Sound buffer := by
  obtain ⟨hmarks, kind, hlabels⟩ := labels_label trace target category
  constructor
  · rw [hlabels]
    exact h.numbered.assign target kind
  · intro address i text hstart
    rw [hmarks] at hstart
    obtain ⟨hdecode, hspell⟩ := h.start hstart
    rw [hlabels]
    exact ⟨hdecode, (trace.labels.assign_extends target kind).spell hspell⟩

/-- A target is labelled. -/
lemma isSome_find?_label (trace : Trace) (target : UInt16) (category : Category) :
    ((trace.label target category).labels.find? target).isSome := by
  obtain ⟨-, kind, hlabels⟩ := labels_label trace target category
  rw [hlabels]
  exact trace.labels.isSome_find?_assign target kind

/-- **An instruction of the buffer with its text keeps a trace sound.** -/
theorem Sound.claim (h : trace.Sound buffer) {text : String}
    (hdecode : buffer.decode? i.address = some i) (hspell : trace.labels.Spell i text) :
    (trace.claim i text).Sound buffer where
  numbered := h.numbered
  start := by
    intro address j other hstart
    have hmarks : (trace.claim i text).marks =
        (trace.marks.setRange i.address .inside i.size).set i.address (.start i text) := rfl
    rw [hmarks, AddressMap.get_set] at hstart
    split at hstart
    · next heq =>
      obtain ⟨rfl, rfl⟩ := Mark.start.inj hstart
      exact ⟨heq ▸ hdecode, hspell⟩
    · rw [AddressMap.get_setRange] at hstart
      split at hstart
      · simp at hstart
      · exact h.start hstart

/-- The text of an instruction is one under the labels that are known. -/
lemma spell_textOf (trace : Trace) (i : Instruction)
    (htarget : ∀ target, i.target? = some target → (trace.labels.find? target).isSome) :
    trace.labels.Spell i (trace.textOf true i) := by
  refine ⟨fun address => if true then trace.labels.find? address else none, rfl, ?_, ?_⟩
  · intro address name hname
    simpa using hname
  · intro target h
    simpa using htarget target h

/-- Instructions that lead nowhere by their bytes have no target. -/
lemma target?_eq_none (h : i.category = .unconditionalReturn ∨
    i.category = .unconditionalRestart ∨ i.category = .halt) : i.target? = none := by
  rw [Instruction.target?]
  rcases h with h | h | h
  all_goals rw [h]

/-- **An instruction that a path goes over keeps a trace sound.** -/
theorem Sound.follow (h : trace.Sound buffer) (hdecode : buffer.decode? i.address = some i) :
    (trace.follow true i).1.Sound buffer := by
  -- an instruction without a target has a text without labels
  have hwithout : i.target? = none → (trace.claim i (trace.textOf true i)).Sound buffer := by
    intro hnone
    refine h.claim hdecode (spell_textOf trace i fun target htarget => ?_)
    rw [hnone] at htarget
    simp at htarget
  -- the target of any other is labelled before its text is written
  have hlabelled : ∀ target category, i.target? = some target →
      (trace.label target category).labels.Spell i
        ((trace.label target category).textOf true i) := by
    intro target category htarget
    refine spell_textOf _ i fun other hother => ?_
    rw [htarget] at hother
    obtain rfl := Option.some.inj hother
    exact isSome_find?_label trace target category
  unfold Trace.follow
  split
  · next target hcategory htarget =>
    exact ((h.label target _).claim hdecode (hlabelled target _ htarget)).enter target
  · next hcategory hnone => exact hwithout hnone
  · next hcategory => exact hwithout (target?_eq_none (.inl hcategory))
  · next hcategory => exact hwithout (target?_eq_none (.inr (.inl hcategory)))
  · next hcategory => exact hwithout (target?_eq_none (.inr (.inr hcategory)))
  · next target htarget _ _ _ _ =>
    have hqueue := (h.label target i.category).queue target
    refine hqueue.claim hdecode ?_
    have hlabels := (labels_queue (trace.label target i.category) target).2
    have hspell := hlabelled target i.category htarget
    rw [textOf, hlabels]
    exact hspell
  · next hnone _ _ _ _ => exact hwithout hnone

/-- An address that is visited keeps a trace sound. -/
lemma Sound.visit (h : trace.Sound buffer) (address : UInt16) :
    (trace.visit true buffer address).1.Sound buffer := by
  unfold Trace.visit
  split
  · exact h
  · next i hdecode =>
    have haddress : i.address = address := (Buffer.decode?_eq_some_iff.1 hdecode).2.1
    split
    · exact h.follow (by rwa [haddress])
    · exact h

/-- **A path keeps a trace sound**, however far it is walked. -/
theorem Sound.walk (h : trace.Sound buffer) (rounds : Nat) (address : UInt16) :
    (trace.walk true buffer rounds address).Sound buffer := by
  induction rounds generalizing trace address with
  | zero => exact h
  | succ rounds ih =>
    have hvisit := h.visit address
    unfold Trace.walk
    split
    · next next hnext =>
      rw [hnext] at hvisit
      exact ih hvisit next
    · next hnext =>
      rw [hnext] at hvisit
      exact hvisit

/-- All paths keep a trace sound, however many are walked. -/
lemma Sound.runFor (h : trace.Sound buffer) (rounds : Nat) :
    (trace.runFor true buffer rounds).Sound buffer := by
  induction rounds generalizing trace with
  | zero => exact h
  | succ rounds ih =>
    unfold Trace.runFor
    split
    · exact h
    · next rest address hnext => exact ih ((h.next? hnext).walk _ address)

/-- **The trace of a buffer is sound**, from whatever addresses it starts. -/
theorem sound_run (buffer : Buffer) (roots : List UInt16) :
    (run true buffer roots).Sound buffer := by
  have hqueued : ∀ {trace : Trace}, trace.Sound buffer →
      (roots.foldl Trace.queue trace).Sound buffer := by
    induction roots with
    | nil => exact fun h => h
    | cons root roots ih => exact fun h => ih (h.queue root)
  exact (hqueued (sound_empty buffer)).runFor addressCount

end Trace

end Z80
