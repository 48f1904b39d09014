import Mathlib.Data.List.Count
import Z80.Proofs.Disassembly.Spans
import Z80.Proofs.Disassembly.Trace

/-!
# How far a trace goes

A trace follows control from its roots.  Whatever it finds can be reached from them, and it leaves
off nowhere: an address to which control may go is outside the buffer, holds no instruction, or its
bytes belong to instructions that were found.

## Main definitions

* `Z80.Instruction.successors` — where control may go from an instruction.
* `Z80.Reachable` — the addresses to which control may come from roots.
* `Z80.Trace.Settled` — an address that needs no path of its own.
* `Z80.Trace.Explored` — what holds of a trace while its paths are walked.

## Main results

* `Z80.Trace.follows_follow` — what following one instruction adds to a trace.
* `Z80.Trace.Explored.visit`, `Z80.Trace.Explored.walk` — one instruction of a path, and a path.
* `Z80.Trace.explored_run`, `Z80.Trace.settled_run` — the trace behind all paths.

## Design

A jump takes its path along without waiting, and marks the target as that of a path although nobody
has been there yet.  So the invariant knows the address at which the path that is being walked goes
on (the `cursor?` of `Explored`): what is neither waiting nor settled is that one address.

The rounds of `Trace.walk` and `Trace.run` are bounded by numbers that decrease: that of the bytes
of the buffer that are free, and that of the addresses that are no paths yet or wait.
-/

namespace Z80

/-! ### Flow of control -/

namespace Instruction

/-- Whether control may pass on to the instruction behind. -/
def fallsThrough (i : Instruction) : Bool :=
  match i.category with
  | .unconditionalJump | .unconditionalReturn | .unconditionalRestart | .halt => false
  | .plain | .conditionalJump | .conditionalCall | .unconditionalCall | .other => true

/-- Where control may go from an instruction: behind it, and to its target. -/
def successors (i : Instruction) : List UInt16 :=
  (if i.fallsThrough then [i.next] else []) ++ i.target?.toList

end Instruction

/-- Control passes on behind all instructions of other categories. -/
lemma Instruction.fallsThrough_of_ne {i : Instruction} (hjump : i.category ≠ .unconditionalJump)
    (hreturn : i.category ≠ .unconditionalReturn) (hrestart : i.category ≠ .unconditionalRestart)
    (hhalt : i.category ≠ .halt) : i.fallsThrough = true := by
  unfold fallsThrough
  split <;> first | contradiction | rfl

/-- The addresses to which control may come from roots over instructions with a property. -/
inductive Reachable (P : Instruction → Prop) (roots : List UInt16) : UInt16 → Prop
  | root {a : UInt16} (ha : a ∈ roots) : Reachable P roots a
  | successor {i : Instruction} {a : UInt16} (hi : P i) (hreach : Reachable P roots i.address)
      (ha : a ∈ i.successors) : Reachable P roots a

/-- More instructions lead to more addresses. -/
lemma Reachable.mono {P Q : Instruction → Prop} {roots : List UInt16} (h : ∀ i, P i → Q i)
    {a : UInt16} (ha : Reachable P roots a) : Reachable Q roots a := by
  induction ha with
  | root ha => exact .root ha
  | successor hi _ ha ih => exact .successor (h _ hi) ih ha

namespace Trace

variable {trace after : Trace} {buffer : Buffer} {roots : List UInt16} {i : Instruction}
  {onward? : Option UInt16}

/-! ### Waiting addresses -/

/-- An ascending list with one more address has that address and those of the list. -/
lemma perm_insertAscending (b : UInt16) (addresses : List UInt16) :
    (insertAscending b addresses).Perm (b :: addresses) := by
  induction addresses with
  | nil => exact .refl _
  | cons first more ih =>
    rw [insertAscending]
    split
    · exact .refl _
    · exact (ih.cons first).trans (.swap ..)

lemma mem_insertAscending {a b : UInt16} {addresses : List UInt16} :
    a ∈ insertAscending b addresses ↔ a = b ∨ a ∈ addresses :=
  (perm_insertAscending b addresses).mem_iff.trans List.mem_cons

lemma length_insertAscending (b : UInt16) (addresses : List UInt16) :
    (insertAscending b addresses).length = addresses.length + 1 :=
  (perm_insertAscending b addresses).length_eq

/-- The number of addresses that may still have to be walked: those that wait, and those that are
no paths yet. -/
def budget (trace : Trace) : Nat :=
  trace.waiting.length + allAddresses.countP fun a => !trace.paths.get a

/-- The number of bytes of a buffer that belong to no instruction. -/
def freeCount (trace : Trace) (buffer : Buffer) : Nat :=
  allAddresses.countP fun a => buffer.contains a && (trace.marks.get a).isFree

/-- Fewer addresses have a property if some had it that have it no more, and no other has it now. -/
lemma countP_lt_countP {p q : UInt16 → Bool} (h : ∀ a, p a = true → q a = true) {b : UInt16}
    (hp : p b = false) (hq : q b = true) :
    allAddresses.countP p < allAddresses.countP q := by
  have hle : ∀ addresses : List UInt16, addresses.countP p ≤ addresses.countP q :=
    fun addresses => List.countP_mono_left fun a _ => h a
  obtain ⟨front, back, hsplit⟩ := List.append_of_mem (mem_allAddresses b)
  have hfront := hle front
  have hback := hle back
  rw [hsplit, List.countP_append, List.countP_append, List.countP_cons, List.countP_cons, hp, hq]
  simp only [Bool.false_eq_true, ↓reduceIte]
  omega

/-- A path that is entered is no longer one of those that are none yet. -/
lemma countP_paths_set (trace : Trace) {a : UInt16} (ha : trace.paths.get a = false) :
    (allAddresses.countP fun b => !(trace.paths.set a true).get b) <
      allAddresses.countP fun b => !trace.paths.get b := by
  refine countP_lt_countP (fun b hb => ?_) (b := a) ?_ (by simp [ha])
  · rw [AddressMap.get_set] at hb
    split at hb
    · simp at hb
    · exact hb
  · simp [AddressMap.get_set]

/-- At most all bytes of a buffer are free. -/
lemma freeCount_le (trace : Trace) (buffer : Buffer) : trace.freeCount buffer ≤ buffer.size := by
  have hcontains : ∀ a, buffer.contains a = true ↔ a ∈ addressesFrom buffer.base buffer.size := by
    intro a
    rw [Buffer.contains, decide_eq_true_iff, mem_addressesFrom]
    constructor
    · intro h
      exact ⟨buffer.offset a, h, by rw [Buffer.offset, UInt16.ofNat_toNat]; grind⟩
    · rintro ⟨n, hn, rfl⟩
      have hlt : n < addressCount := Nat.lt_of_lt_of_le hn buffer.size_le
      have hsub : buffer.base + UInt16.ofNat n - buffer.base = UInt16.ofNat n := by grind
      rwa [Buffer.offset, hsub, UInt16.toNat_ofNat_of_lt' hlt]
  calc trace.freeCount buffer
      ≤ allAddresses.countP buffer.contains :=
        List.countP_mono_left fun a _ h => (Bool.and_eq_true _ _ ▸ h).1
    _ = (allAddresses.filter buffer.contains).length := List.countP_eq_length_filter
    _ = buffer.size := by
        rw [length_filter_allAddresses (nodup_addressesFrom buffer.size_le) hcontains,
          length_addressesFrom]
        rfl

/-- Fewer bytes are free when an instruction of the buffer has taken its own. -/
lemma freeCount_lt_of_claim (hdecode : buffer.decode? i.address = some i)
    (hfree : ∀ a ∈ i.span, (trace.marks.get a).isFree = true) {text : String}
    (hmarks : after.marks = (trace.claim i text).marks) :
    after.freeCount buffer < trace.freeCount buffer := by
  have hself := Buffer.address_mem_span hdecode
  refine countP_lt_countP (fun a ha => ?_) (b := i.address) ?_ ?_
  · rw [hmarks, get_claim, Bool.and_eq_true] at ha
    obtain ⟨hcontains, hisFree⟩ := ha
    split at hisFree
    · simp [Mark.isFree] at hisFree
    · split at hisFree
      · simp [Mark.isFree] at hisFree
      · simp [hcontains, hisFree]
  · simp [hmarks, get_claim, Mark.isFree]
  · simp [Buffer.contains_of_mem_span hdecode hself, hfree _ hself]

/-! ### What is added to a trace -/

/-- What a trace has more than another one behind an instruction, whose path goes on at `onward?`:
the instruction has its bytes, and each of its successors is a path. -/
structure Follows (after trace : Trace) (i : Instruction) (onward? : Option UInt16) : Prop where
  marks_eq : ∃ text, after.marks = (trace.claim i text).marks
  waiting : ∀ {a}, a ∈ trace.waiting → a ∈ after.waiting
  mem_waiting : ∀ {a}, a ∈ after.waiting → a ∈ trace.waiting ∨ a ∈ i.successors
  paths : ∀ {a}, after.paths.get a = true →
    trace.paths.get a = true ∨ a ∈ after.waiting ∨ onward? = some a
  successor : ∀ {a}, a ∈ i.successors →
    trace.paths.get a = true ∨ a ∈ after.waiting ∨ onward? = some a
  next_mem : ∀ {a}, onward? = some a → a ∈ i.successors
  budget_le : after.budget ≤ trace.budget

/-- An address that is queued waits, unless it is a path already. -/
lemma mem_waiting_queue (trace : Trace) (b : UInt16) {a : UInt16} :
    a ∈ (trace.queue b).waiting ↔
      a ∈ trace.waiting ∨ (a = b ∧ trace.paths.get b = false) := by
  unfold queue
  cases trace.paths.get b with
  | true => simp
  | false =>
    simp only [Bool.false_eq_true, ↓reduceIte, and_true]
    rw [mem_insertAscending, or_comm]

/-- An address that is queued is a path. -/
lemma paths_queue (trace : Trace) (b : UInt16) {a : UInt16} :
    (trace.queue b).paths.get a = true ↔ a = b ∨ trace.paths.get a = true := by
  unfold queue
  cases hb : trace.paths.get b with
  | true =>
    simp only [↓reduceIte]
    exact ⟨.inr, fun h => h.elim (fun heq => heq ▸ hb) id⟩
  | false =>
    simp only [Bool.false_eq_true, ↓reduceIte]
    rw [AddressMap.get_set]
    by_cases heq : b = a
    · simp [heq]
    · simp [heq, Ne.symm heq]

/-- An address that is queued may have had to be walked before. -/
lemma budget_queue_le (trace : Trace) (b : UInt16) : (trace.queue b).budget ≤ trace.budget := by
  unfold queue
  cases hb : trace.paths.get b with
  | true => exact Nat.le_refl _
  | false =>
    have := countP_paths_set trace hb
    simp only [Bool.false_eq_true, ↓reduceIte, budget, length_insertAscending]
    omega

/-- An address that is entered may have had to be walked before. -/
lemma budget_enter_le (trace : Trace) (b : UInt16) : (trace.enter b).budget ≤ trace.budget := by
  refine Nat.add_le_add_left (List.countP_mono_left fun a _ ha => ?_) _
  change (!(trace.paths.set b true).get a) = true at ha
  rw [AddressMap.get_set] at ha
  split at ha
  · simp at ha
  · exact ha

/-- Where the same is marked, an instruction leaves the same marks. -/
lemma claim_congr (h : after.marks = trace.marks) (i : Instruction) (text : String) :
    (after.claim i text).marks = (trace.claim i text).marks :=
  congrArg (fun marks => (marks.setRange i.address .inside i.size).set i.address (.start i text)) h

/-- Control ends behind an instruction without successors. -/
lemma follows_claim (trace : Trace) (text : String) (hnone : i.successors = []) :
    (trace.claim i text).Follows trace i none where
  marks_eq := ⟨text, rfl⟩
  waiting := id
  mem_waiting := .inl
  paths := .inl
  successor ha := by simp [hnone] at ha
  next_mem ha := by simp at ha
  budget_le := Nat.le_refl _

/-- **What following an instruction adds to a trace.** -/
theorem follows_follow (useLabels : Bool) (trace : Trace) (i : Instruction) :
    (trace.follow useLabels i).1.Follows trace i (trace.follow useLabels i).2 := by
  unfold follow
  split
  · next target hcategory htarget =>
    have hsuccessors : i.successors = [target] := by
      simp [Instruction.successors, Instruction.fallsThrough, hcategory, htarget]
    refine ⟨⟨_, rfl⟩, id, .inl, fun {a} ha => ?_, fun {a} ha => ?_, fun {a} ha => ?_,
      budget_enter_le _ _⟩
    · change (trace.paths.set target true).get a = true at ha
      rw [AddressMap.get_set] at ha
      split at ha
      · next heq => exact .inr (.inr (congrArg some heq))
      · exact .inl ha
    · rw [hsuccessors, List.mem_singleton] at ha
      exact .inr (.inr (congrArg some ha.symm))
    · rw [hsuccessors, List.mem_singleton]
      exact (Option.some.inj ha).symm
  · next hcategory htarget =>
    exact follows_claim trace _ (by
      simp [Instruction.successors, Instruction.fallsThrough, hcategory, htarget])
  · next hcategory =>
    exact follows_claim trace _ (by
      simp [Instruction.successors, Instruction.fallsThrough, Instruction.target?, hcategory])
  · next hcategory =>
    exact follows_claim trace _ (by
      simp [Instruction.successors, Instruction.fallsThrough, Instruction.target?, hcategory])
  · next hcategory =>
    exact follows_claim trace _ (by
      simp [Instruction.successors, Instruction.fallsThrough, Instruction.target?, hcategory])
  · next target htarget hjump hreturn hrestart hhalt =>
    have hsuccessors : i.successors = [i.next, target] := by
      simp [Instruction.successors, htarget,
        Instruction.fallsThrough_of_ne hjump hreturn hrestart hhalt]
    -- the label changes neither the paths nor the waiting addresses
    have hwaiting : ∀ {a}, a ∈ ((trace.label target i.category).queue target).waiting ↔
        a ∈ trace.waiting ∨ (a = target ∧ trace.paths.get target = false) :=
      mem_waiting_queue (trace.label target i.category) target
    refine ⟨⟨_, (claim_congr (labels_queue _ target).1 i _)⟩, fun ha => hwaiting.2 (.inl ha),
      fun {a} ha => ?_, fun {a} ha => ?_, fun {a} ha => ?_, fun {a} ha => ?_,
      budget_queue_le (trace.label target i.category) target⟩
    · rcases hwaiting.1 ha with hold | ⟨rfl, -⟩
      · exact .inl hold
      · simp [hsuccessors]
    · rcases (paths_queue (trace.label target i.category) target).1 ha with rfl | hold
      · cases hpath : trace.paths.get a with
        | true => exact .inl rfl
        | false => exact .inr (.inl (hwaiting.2 (.inr ⟨rfl, hpath⟩)))
      · exact .inl hold
    · rw [hsuccessors, List.mem_cons, List.mem_singleton] at ha
      rcases ha with rfl | rfl
      · exact .inr (.inr rfl)
      · cases hpath : trace.paths.get a with
        | true => exact .inl rfl
        | false => exact .inr (.inl (hwaiting.2 (.inr ⟨rfl, hpath⟩)))
    · rw [hsuccessors, ← Option.some.inj ha]
      exact List.mem_cons_self
  · next hnone hjump hreturn hrestart hhalt =>
    have hsuccessors : i.successors = [i.next] := by
      simp [Instruction.successors, hnone,
        Instruction.fallsThrough_of_ne hjump hreturn hrestart hhalt]
    refine ⟨⟨_, rfl⟩, id, .inl, .inl, fun {a} ha => ?_, fun {a} ha => ?_, Nat.le_refl _⟩
    · rw [hsuccessors, List.mem_singleton] at ha
      exact .inr (.inr (congrArg some ha.symm))
    · rw [hsuccessors, List.mem_singleton]
      exact (Option.some.inj ha).symm

/-! ### Settled addresses -/

/-- An address that needs no path of its own: it is outside the buffer, or belongs to an instruction
that was found, or nothing decodes there, or what decodes shares bytes with an instruction that was
found. -/
def Settled (trace : Trace) (buffer : Buffer) (a : UInt16) : Prop :=
  buffer.contains a = false ∨ (∃ i, trace.Finds i ∧ a ∈ i.span) ∨ buffer.decode? a = none ∨
    ∃ j, buffer.decode? a = some j ∧ ∃ i, trace.Finds i ∧ ∃ b ∈ j.span, b ∈ i.span

/-- Addresses stay settled when more is found. -/
lemma Settled.mono (h : ∀ i, trace.Finds i → after.Finds i) {a : UInt16}
    (ha : trace.Settled buffer a) : after.Settled buffer a := by
  rcases ha with hout | ⟨i, hi, hmem⟩ | hnone | ⟨j, hj, i, hi, hshared⟩
  · exact .inl hout
  · exact .inr (.inl ⟨i, h i hi, hmem⟩)
  · exact .inr (.inr (.inl hnone))
  · exact .inr (.inr (.inr ⟨j, hj, i, h i hi, hshared⟩))

/-- An address that a trace has to settle: a root, a path, or a successor of an instruction that was
found. -/
def Owes (trace : Trace) (roots : List UInt16) (a : UInt16) : Prop :=
  a ∈ roots ∨ trace.paths.get a = true ∨ ∃ i, trace.Finds i ∧ a ∈ i.successors

/-- What holds of a trace whose path goes on at `cursor?`: its marks are in order, what it found and
what it is going to walk can be reached, and what it owes is settled, waits, or is the next address
of the path. -/
structure Explored (trace : Trace) (buffer : Buffer) (roots : List UInt16)
    (cursor? : Option UInt16) : Prop where
  marked : trace.Marked buffer
  reachable : ∀ {i}, trace.Finds i → Reachable trace.Finds roots i.address
  waiting_reachable : ∀ {a}, a ∈ trace.waiting ∨ cursor? = some a → Reachable trace.Finds roots a
  settled : ∀ {a}, trace.Owes roots a →
    a ∈ trace.waiting ∨ cursor? = some a ∨ trace.Settled buffer a

namespace Explored

variable {address : UInt16}

/-- The path ends at an address that is settled. -/
lemma stop (h : trace.Explored buffer roots (some address))
    (hsettled : trace.Settled buffer address) : trace.Explored buffer roots none where
  marked := h.marked
  reachable := h.reachable
  waiting_reachable ha := h.waiting_reachable (ha.elim .inl fun hnone => by simp at hnone)
  settled ha := by
    rcases h.settled ha with hwaiting | hcursor | hdone
    · exact .inl hwaiting
    · exact .inr (.inr (Option.some.inj hcursor ▸ hsettled))
    · exact .inr (.inr hdone)

/-- **An instruction that is followed keeps a trace explored**, and its path goes on at one of its
successors. -/
theorem follow (h : trace.Explored buffer roots (some i.address))
    (hdecode : buffer.decode? i.address = some i)
    (hfree : ∀ a ∈ i.span, (trace.marks.get a).isFree = true)
    (hfollows : after.Follows trace i onward?) : after.Explored buffer roots onward? := by
  obtain ⟨text, hmarks⟩ := hfollows.marks_eq
  have hself := Buffer.address_mem_span hdecode
  have hfinds : ∀ j, after.Finds j ↔ j = i ∨ trace.Finds j :=
    fun j => (finds_congr hmarks).trans (finds_claim_iff hfree hself)
  have hmore : ∀ j, trace.Finds j → after.Finds j := fun j hj => (hfinds j).2 (.inr hj)
  have hfound : after.Finds i := (hfinds i).2 (.inl rfl)
  have hhere : Reachable after.Finds roots i.address :=
    (h.waiting_reachable (.inr rfl)).mono hmore
  refine ⟨(h.marked.claim hdecode hfree text).congr hmarks, fun {j} hj => ?_, fun {a} ha => ?_,
    fun {a} ha => ?_⟩
  · rcases (hfinds j).1 hj with rfl | hold
    · exact hhere
    · exact (h.reachable hold).mono hmore
  · rcases ha with hwaiting | hnext
    · rcases hfollows.mem_waiting hwaiting with hold | hsuccessor
      · exact (h.waiting_reachable (.inl hold)).mono hmore
      · exact .successor hfound hhere hsuccessor
    · exact .successor hfound hhere (hfollows.next_mem hnext)
  · -- what was owed before was waiting or settled, or is the address of the instruction
    have hbefore : trace.Owes roots a →
        a ∈ after.waiting ∨ onward? = some a ∨ after.Settled buffer a := by
      intro howed
      rcases h.settled howed with hwaiting | hcursor | hdone
      · exact .inl (hfollows.waiting hwaiting)
      · exact .inr (.inr (.inr (.inl ⟨i, hfound, Option.some.inj hcursor ▸ hself⟩)))
      · exact .inr (.inr (hdone.mono hmore))
    -- an address that has become a path waits or is the next one
    have hpath : trace.paths.get a = true ∨ a ∈ after.waiting ∨ onward? = some a →
        a ∈ after.waiting ∨ onward? = some a ∨ after.Settled buffer a := by
      rintro (hold | hwaiting | hnext)
      · exact hbefore (.inr (.inl hold))
      · exact .inl hwaiting
      · exact .inr (.inl hnext)
    rcases ha with hroot | hisPath | ⟨j, hj, hsuccessor⟩
    · exact hbefore (.inl hroot)
    · exact hpath (hfollows.paths hisPath)
    · rcases (hfinds j).1 hj with rfl | hold
      · exact hpath (hfollows.successor hsuccessor)
      · exact hbefore (.inr (.inr ⟨j, hold, hsuccessor⟩))

/-- **One address of a path keeps a trace explored.**  If the path goes on, fewer bytes are free. -/
theorem visit (useLabels : Bool) (h : trace.Explored buffer roots (some address)) :
    (trace.visit useLabels buffer address).1.Explored buffer roots
        (trace.visit useLabels buffer address).2 ∧
      (trace.visit useLabels buffer address).1.budget ≤ trace.budget ∧
      ((trace.visit useLabels buffer address).2 ≠ none →
        (trace.visit useLabels buffer address).1.freeCount buffer < trace.freeCount buffer) := by
  rcases visit_cases useLabels buffer trace address with ⟨hnone, hvisit⟩ |
    ⟨j, hj, ⟨a, ha, htaken⟩, hvisit⟩ | ⟨i, hdecode, rfl, hfree, hvisit⟩
  · rw [hvisit]
    exact ⟨h.stop (.inr (.inr (.inl hnone))), Nat.le_refl _, fun hne => absurd rfl hne⟩
  · obtain ⟨i, hi, hmem⟩ := (h.marked.isFree_iff a).1 htaken
    rw [hvisit]
    exact ⟨h.stop (.inr (.inr (.inr ⟨j, hj, i, hi, a, ha, hmem⟩))), Nat.le_refl _,
      fun hne => absurd rfl hne⟩
  · rw [hvisit]
    have hfollows := follows_follow useLabels trace i
    refine ⟨h.follow hdecode hfree hfollows, hfollows.budget_le, fun _ => ?_⟩
    obtain ⟨text, hmarks⟩ := hfollows.marks_eq
    exact freeCount_lt_of_claim hdecode hfree hmarks

/-- **A path keeps a trace explored**, and comes to an end in as many rounds as there are free bytes
and one more. -/
theorem walk (useLabels : Bool) {rounds : Nat} (h : trace.Explored buffer roots (some address))
    (hrounds : trace.freeCount buffer < rounds) :
    (trace.walk useLabels buffer rounds address).Explored buffer roots none ∧
      (trace.walk useLabels buffer rounds address).budget ≤ trace.budget := by
  induction rounds generalizing trace address with
  | zero => omega
  | succ rounds ih =>
    obtain ⟨hexplored, hbudget, hcount⟩ := h.visit useLabels
    unfold Trace.walk
    split
    · next rest next hvisit =>
      rw [hvisit] at hexplored hbudget hcount
      have hless := hcount (by simp)
      obtain ⟨hrest, hbudget'⟩ := ih hexplored (by omega)
      exact ⟨hrest, Nat.le_trans hbudget' hbudget⟩
    · next rest hvisit =>
      rw [hvisit] at hexplored hbudget
      exact ⟨hexplored, hbudget⟩

/-- The first of the waiting addresses is walked next. -/
lemma next? (h : trace.Explored buffer roots none) {rest : Trace}
    (hnext : trace.next? = some (rest, address)) :
    rest.Explored buffer roots (some address) ∧ rest.budget < trace.budget := by
  obtain ⟨marks, paths, waiting, labels⟩ := trace
  cases waiting with
  | nil => simp [Trace.next?] at hnext
  | cons first waiting =>
    obtain ⟨rfl, rfl⟩ := Prod.mk.inj (Option.some.inj hnext)
    refine ⟨⟨h.marked.congr rfl, h.reachable, fun {a} ha => h.waiting_reachable (.inl ?_),
      fun {a} ha => ?_⟩, ?_⟩
    · rcases ha with hwaiting | hcursor
      · exact List.mem_cons_of_mem _ hwaiting
      · exact Option.some.inj hcursor ▸ List.mem_cons_self
    · rcases h.settled ha with hwaiting | hcursor | hdone
      · rcases List.mem_cons.1 hwaiting with rfl | hmem
        · exact .inr (.inl rfl)
        · exact .inl hmem
      · simp at hcursor
      · exact .inr (.inr hdone)
    · simp only [budget, List.length_cons]
      omega

/-- All paths keep a trace explored, and as many rounds as the budget are enough for all of them. -/
theorem runFor (useLabels : Bool) {rounds : Nat} (h : trace.Explored buffer roots none)
    (hrounds : trace.budget ≤ rounds) :
    (trace.runFor useLabels buffer rounds).Explored buffer roots none ∧
      (trace.runFor useLabels buffer rounds).waiting = [] := by
  induction rounds generalizing trace with
  | zero =>
    have hwaiting : trace.waiting.length = 0 := by
      rw [budget] at hrounds
      omega
    exact ⟨h, List.length_eq_zero_iff.1 hwaiting⟩
  | succ rounds ih =>
    unfold Trace.runFor
    split
    · next hnone =>
      obtain ⟨marks, paths, waiting, labels⟩ := trace
      cases waiting with
      | nil => exact ⟨h, rfl⟩
      | cons first waiting => simp [Trace.next?] at hnone
    · next rest address hnext =>
      obtain ⟨hrest, hless⟩ := h.next? hnext
      obtain ⟨hwalked, hbudget⟩ := hrest.walk useLabels
        (Nat.lt_add_one_of_le (rest.freeCount_le buffer))
      exact ih hwalked (by omega)

end Explored

/-! ### All paths -/

/-- Roots that are queued wait, and nothing is found by that. -/
lemma foldl_queue (hpaths : ∀ a, trace.paths.get a = true ↔ a ∈ trace.waiting) :
    (roots.foldl queue trace).marks = trace.marks ∧
      (∀ a, a ∈ (roots.foldl queue trace).waiting ↔ a ∈ trace.waiting ∨ a ∈ roots) ∧
      (∀ a, (roots.foldl queue trace).paths.get a = true ↔
        a ∈ (roots.foldl queue trace).waiting) ∧
      (roots.foldl queue trace).budget ≤ trace.budget := by
  induction roots generalizing trace with
  | nil => exact ⟨rfl, by simp, hpaths, Nat.le_refl _⟩
  | cons root roots ih =>
    -- a root that is a path already waits already
    have hwaiting : ∀ a, a ∈ (trace.queue root).waiting ↔ a ∈ trace.waiting ∨ a = root := by
      intro a
      rw [mem_waiting_queue, ← Bool.not_eq_true, hpaths]
      constructor
      · exact Or.imp_right And.left
      · rintro (hold | rfl)
        · exact .inl hold
        · exact (Classical.em (a ∈ trace.waiting)).imp_right fun hnew => ⟨rfl, hnew⟩
    obtain ⟨hmarks, hall, hpaths', hbudget⟩ := @ih (trace.queue root) fun a => by
      rw [paths_queue, hwaiting, hpaths, or_comm]
    refine ⟨hmarks.trans (labels_queue trace root).1, fun a => ?_, hpaths',
      Nat.le_trans hbudget (trace.budget_queue_le root)⟩
    rw [List.foldl_cons, hall, hwaiting, List.mem_cons, or_assoc]

/-- The roots wait before the first of them is walked. -/
lemma explored_roots (buffer : Buffer) (roots : List UInt16) :
    (roots.foldl queue empty).Explored buffer roots none ∧
      (roots.foldl queue empty).budget ≤ addressCount := by
  obtain ⟨hmarks, hwaiting, hpaths, hbudget⟩ :=
    @foldl_queue empty roots fun a => by simp [empty]
  have hroots : ∀ a, a ∈ (roots.foldl queue empty).waiting ↔ a ∈ roots :=
    fun a => (hwaiting a).trans (by simp [empty])
  have hnone : ∀ i, ¬ (roots.foldl queue empty).Finds i := by
    rintro i ⟨text, hi⟩
    rw [hmarks] at hi
    simp [empty] at hi
  refine ⟨⟨(marked_empty buffer).congr hmarks, fun hi => absurd hi (hnone _), fun {a} ha => ?_,
    fun {a} ha => ?_⟩, Nat.le_trans hbudget ?_⟩
  · rcases ha with hmem | hcursor
    · exact .root ((hroots a).1 hmem)
    · simp at hcursor
  · rcases ha with hroot | hpath | ⟨i, hi, -⟩
    · exact .inl ((hroots a).2 hroot)
    · exact .inl ((hpaths a).1 hpath)
    · exact absurd hi (hnone i)
  · have hnil : empty.waiting = [] := rfl
    calc empty.budget
        = allAddresses.countP fun a => !empty.paths.get a := by
          rw [budget, hnil, List.length_nil, Nat.zero_add]
      _ ≤ allAddresses.length := List.countP_le_length
      _ = addressCount := by rw [allAddresses, List.length_map, List.length_range]

/-- **The trace behind all paths** has found what can be reached, and owes nothing that is not
settled. -/
theorem explored_run (useLabels : Bool) (buffer : Buffer) (roots : List UInt16) :
    (run useLabels buffer roots).Explored buffer roots none ∧
      (run useLabels buffer roots).waiting = [] := by
  obtain ⟨hexplored, hbudget⟩ := explored_roots buffer roots
  exact hexplored.runFor useLabels hbudget

/-- Behind all paths every address that is owed is settled. -/
lemma settled_run (useLabels : Bool) (buffer : Buffer) (roots : List UInt16) {a : UInt16}
    (ha : (run useLabels buffer roots).Owes roots a) :
    (run useLabels buffer roots).Settled buffer a := by
  obtain ⟨hexplored, hwaiting⟩ := explored_run useLabels buffer roots
  rcases hexplored.settled ha with hwaits | hcursor | hsettled
  · exact absurd hwaits (hwaiting ▸ List.not_mem_nil)
  · simp at hcursor
  · exact hsettled

/-- **A root is found** if an instruction decodes there and none decodes elsewhere. -/
lemma finds_root (useLabels : Bool) {buffer : Buffer} {roots : List UInt16}
    (hroot : i.address ∈ roots) (hdecode : buffer.decode? i.address = some i)
    (honly : ∀ a, a ≠ i.address → buffer.decode? a = none) :
    (run useLabels buffer roots).Finds i := by
  have hmarked := (explored_run useLabels buffer roots).1.marked
  have hself : ∀ j, (run useLabels buffer roots).Finds j → j = i := by
    intro j hj
    have hj' := hmarked.decode?_eq hj
    by_cases haddress : j.address = i.address
    · rw [haddress, hdecode] at hj'
      exact (Option.some.inj hj').symm
    · simp [honly _ haddress] at hj'
  have hinside := Buffer.contains_of_mem_span hdecode (Buffer.address_mem_span hdecode)
  rcases settled_run useLabels buffer roots (.inl hroot) with
    hout | ⟨j, hj, -⟩ | hnone | ⟨-, -, j, hj, -⟩
  · simp [hinside] at hout
  · exact hself j hj ▸ hj
  · simp [hdecode] at hnone
  · exact hself j hj ▸ hj

end Trace

end Z80
