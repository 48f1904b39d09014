import Z80.Proofs.Disassembly.Traversal

/-!
# The paths of a trace come to an end

However the jumps of a program lead back and forth, tracing it stops.  A path that goes on has taken
a byte of the buffer that was free, and an address that was taken off the waiting ones does not wait
again; so there are at most as many paths as addresses, and all of them together take no more rounds
than there are paths and bytes.

## Main definitions

* `Z80.Trace.Walks`, `Z80.Trace.Runs` — a path, and all paths, without a bound on their rounds.
* `Z80.Trace.Pending` — the addresses at which a path may still start.
* `Z80.Trace.Advances` — how the traces of a run follow each other.

## Main results

* `Z80.Trace.visit_claims` — a path that goes on has taken a free byte.
* `Z80.Trace.advances_visit`, `Z80.Trace.Walks.advances` — one round of a path, and a path.
* `Z80.Trace.Runs.nodup_starts` — no two paths start at the same address.
* `Z80.Trace.Runs.rounds_le` — the rounds of all paths.
* `Z80.Trace.runs_run` — tracing comes to an end within these bounds.

## Design

`Trace.walk` and `Trace.run` have a number of rounds that they do not exceed, and would stop short
if it were used up.  The relations here have none: `Walks` and `Runs` hold only of a path that ended
by itself, and of a trace in which no address waits any more.  They relate a trace to at most one
log and one trace behind it, so what holds of these holds of the traversal.
-/

namespace Z80

namespace Trace

variable {trace between after other : Trace} {buffer : Buffer} {useLabels : Bool}
  {address next : UInt16} {rounds fuel : Nat} {log : List (UInt16 × Nat)}

/-! ### Paths without a bound -/

/-- A path that goes on at an address, walked until it ends by itself. -/
inductive Walks (useLabels : Bool) (buffer : Buffer) :
    Trace → UInt16 → (rounds : Nat) → Trace → Prop
  | stop {trace after : Trace} {address : UInt16}
      (hvisit : trace.visit useLabels buffer address = (after, none)) :
      Walks useLabels buffer trace address 1 after
  | goOn {trace between after : Trace} {address next : UInt16} {rounds : Nat}
      (hvisit : trace.visit useLabels buffer address = (between, some next))
      (hrest : Walks useLabels buffer between next rounds after) :
      Walks useLabels buffer trace address (rounds + 1) after

/-- All paths, walked until no address waits.  The log has the start of each path and the number of
its rounds. -/
inductive Runs (useLabels : Bool) (buffer : Buffer) :
    Trace → (log : List (UInt16 × Nat)) → Trace → Prop
  | done {trace : Trace} (hnext : trace.next? = none) : Runs useLabels buffer trace [] trace
  | path {trace rest between after : Trace} {start : UInt16} {rounds : Nat}
      {log : List (UInt16 × Nat)} (hnext : trace.next? = some (rest, start))
      (hwalk : Walks useLabels buffer rest start rounds between)
      (hrest : Runs useLabels buffer between log after) :
      Runs useLabels buffer trace ((start, rounds) :: log) after

/-- A path can be walked in one way only. -/
lemma Walks.unique (h : Walks useLabels buffer trace address rounds after) {rounds' : Nat}
    (h' : Walks useLabels buffer trace address rounds' other) :
    rounds' = rounds ∧ other = after := by
  induction h generalizing rounds' with
  | stop hvisit =>
    cases h' with
    | stop hvisit' => exact ⟨rfl, (Prod.mk.inj (hvisit'.symm.trans hvisit)).1⟩
    | goOn hvisit' _ => simp [hvisit] at hvisit'
  | goOn hvisit _ ih =>
    cases h' with
    | stop hvisit' => simp [hvisit] at hvisit'
    | goOn hvisit' hrest' =>
      obtain ⟨rfl, hsome⟩ := Prod.mk.inj (hvisit'.symm.trans hvisit)
      obtain rfl := Option.some.inj hsome
      exact (ih hrest').imp_left (congrArg (· + 1))

/-- All paths can be walked in one way only. -/
lemma Runs.unique (h : Runs useLabels buffer trace log after) {log' : List (UInt16 × Nat)}
    (h' : Runs useLabels buffer trace log' other) : log' = log ∧ other = after := by
  induction h generalizing log' with
  | done hnext =>
    cases h' with
    | done _ => exact ⟨rfl, rfl⟩
    | path hnext' _ _ => simp [hnext] at hnext'
  | path hnext hwalk _ ih =>
    cases h' with
    | done hnext' => simp [hnext] at hnext'
    | path hnext' hwalk' hrest' =>
      obtain ⟨rfl, rfl⟩ := Prod.mk.inj (Option.some.inj (hnext'.symm.trans hnext))
      obtain ⟨rfl, rfl⟩ := hwalk.unique hwalk'
      exact (ih hrest').imp_left (congrArg _)

/-! ### What a run never takes back -/

/-- The addresses at which a path may still start: those that wait, and those that are no paths
yet. -/
def Pending (trace : Trace) (a : UInt16) : Prop :=
  a ∈ trace.waiting ∨ trace.paths.get a = false

/-- Whether the waiting addresses are different paths. -/
structure Orderly (trace : Trace) : Prop where
  nodup : trace.waiting.Nodup
  paths : ∀ {a}, a ∈ trace.waiting → trace.paths.get a = true

/-- What holds of a trace and a later one: bytes stay taken, paths stay paths, and no address gets
pending again. -/
structure Advances (after trace : Trace) : Prop where
  taken : ∀ {a}, (trace.marks.get a).isFree = false → (after.marks.get a).isFree = false
  paths : ∀ {a}, trace.paths.get a = true → after.paths.get a = true
  pending : ∀ {a}, after.Pending a → trace.Pending a
  orderly : trace.Orderly → after.Orderly
  budget_le : after.budget ≤ trace.budget

lemma Advances.refl (trace : Trace) : trace.Advances trace :=
  ⟨id, id, id, id, Nat.le_refl _⟩

lemma Advances.trans (h' : after.Advances between) (h : between.Advances trace) :
    after.Advances trace where
  taken ha := h'.taken (h.taken ha)
  paths ha := h'.paths (h.paths ha)
  pending ha := h.pending (h'.pending ha)
  orderly ho := h'.orderly (h.orderly ho)
  budget_le := Nat.le_trans h'.budget_le h.budget_le

/-- Bytes of a buffer that are taken stay taken. -/
lemma Advances.freeCount_le (h : after.Advances trace) (buffer : Buffer) :
    after.freeCount buffer ≤ trace.freeCount buffer := by
  refine List.countP_mono_left fun a _ ha => ?_
  rw [Bool.and_eq_true] at ha ⊢
  exact ⟨ha.1, Bool.of_not_eq_false (mt h.taken (ne_false_of_eq_true ha.2))⟩

/-- What is no path later was none before. -/
lemma not_path_of_paths {a : UInt16}
    (h : trace.paths.get a = true → after.paths.get a = true)
    (ha : after.paths.get a = false) : trace.paths.get a = false :=
  Bool.eq_false_iff.2 (mt h (Bool.eq_false_iff.1 ha))

/-- A trace in which one more address waits is a later one. -/
lemma advances_queue (trace : Trace) (b : UInt16) : (trace.queue b).Advances trace := by
  cases hb : trace.paths.get b with
  | true =>
    have hsame : trace.queue b = trace := by simp [queue, hb]
    rw [hsame]
    exact .refl trace
  | false =>
    have hwaiting : (trace.queue b).waiting = insertAscending b trace.waiting := by
      simp [queue, hb]
    have hpaths : ∀ {a}, trace.paths.get a = true → (trace.queue b).paths.get a = true :=
      fun ha => (paths_queue trace b).2 (.inr ha)
    refine ⟨?_, hpaths, ?_, fun ho => ⟨?_, ?_⟩, budget_queue_le trace b⟩
    · rw [(labels_queue trace b).1]
      exact id
    · rintro a (ha | ha)
      · rcases (mem_waiting_queue trace b).1 ha with hold | ⟨rfl, hnew⟩
        · exact .inl hold
        · exact .inr hnew
      · exact .inr (not_path_of_paths hpaths ha)
    · -- what waits is a path, and the new address was none
      rw [hwaiting, (perm_insertAscending b _).nodup_iff, List.nodup_cons]
      exact ⟨fun hmem => ne_false_of_eq_true (ho.paths hmem) hb, ho.nodup⟩
    · intro a ha
      rcases (mem_waiting_queue trace b).1 ha with hold | ⟨rfl, -⟩
      · exact hpaths (ho.paths hold)
      · exact (paths_queue trace a).2 (.inl rfl)

/-- A trace in which an address is that of a path is a later one. -/
lemma advances_enter (trace : Trace) (b : UInt16) : (trace.enter b).Advances trace := by
  have hpaths : ∀ {a}, trace.paths.get a = true → (trace.enter b).paths.get a = true := by
    intro a ha
    change (trace.paths.set b true).get a = true
    rw [AddressMap.get_set, ha, ite_self]
  refine ⟨id, hpaths, ?_, fun ho => ⟨ho.nodup, fun ha => hpaths (ho.paths ha)⟩,
    budget_enter_le trace b⟩
  rintro a (ha | ha)
  · exact .inl ha
  · exact .inr (not_path_of_paths hpaths ha)

/-- A trace in which an instruction has its bytes is a later one. -/
lemma advances_claim (trace : Trace) (i : Instruction) (text : String) :
    (trace.claim i text).Advances trace := by
  refine ⟨fun {a} ha => ?_, id, id, fun ho => ⟨ho.nodup, ho.paths⟩, Nat.le_refl _⟩
  rw [get_claim]
  split
  · rfl
  · split
    · rfl
    · exact ha

/-- Labels do not matter to what waits and what is taken. -/
lemma advances_label (trace : Trace) (target : UInt16) (category : Category) :
    (trace.label target category).Advances trace :=
  ⟨id, id, id, fun ho => ⟨ho.nodup, ho.paths⟩, Nat.le_refl _⟩

/-- **Following an instruction takes nothing back.** -/
theorem advances_follow (useLabels : Bool) (trace : Trace) (i : Instruction) :
    (trace.follow useLabels i).1.Advances trace := by
  unfold follow
  split
  · next target _ _ =>
    exact (advances_enter _ target).trans ((advances_claim _ i _).trans (advances_label ..))
  · exact advances_claim _ i _
  · exact advances_claim _ i _
  · exact advances_claim _ i _
  · exact advances_claim _ i _
  · next target _ _ _ _ _ =>
    exact (advances_claim _ i _).trans ((advances_queue _ target).trans (advances_label ..))
  · exact advances_claim _ i _

/-- **One round of a path takes nothing back.** -/
theorem advances_visit (useLabels : Bool) (buffer : Buffer) (trace : Trace) (address : UInt16) :
    (trace.visit useLabels buffer address).1.Advances trace := by
  rcases visit_cases useLabels buffer trace address with
    ⟨-, hvisit⟩ | ⟨-, -, -, hvisit⟩ | ⟨i, -, -, -, hvisit⟩
  · rw [hvisit]
    exact .refl trace
  · rw [hvisit]
    exact .refl trace
  · rw [hvisit]
    exact advances_follow useLabels trace i

/-- A path goes on only behind an instruction whose bytes were free and are its own then. -/
lemma exists_claim_of_visit
    (hvisit : trace.visit useLabels buffer address = (between, some next)) :
    ∃ i text, buffer.decode? i.address = some i ∧ i.address = address ∧
      (∀ a ∈ i.span, (trace.marks.get a).isFree = true) ∧
      between.marks = (trace.claim i text).marks := by
  rcases visit_cases useLabels buffer trace address with
    ⟨-, hstop⟩ | ⟨-, -, -, hstop⟩ | ⟨i, hdecode, haddress, hfree, hfollow⟩
  · simp [hstop] at hvisit
  · simp [hstop] at hvisit
  · obtain ⟨text, hmarks⟩ := (follows_follow useLabels trace i).marks_eq
    rw [← hfollow, hvisit] at hmarks
    exact ⟨i, text, hdecode, haddress, hfree, hmarks⟩

/-- **A path that goes on has taken a byte**: the one at its address is in the buffer, was free, and
is not free any more. -/
theorem visit_claims (hvisit : trace.visit useLabels buffer address = (between, some next)) :
    buffer.contains address = true ∧ (trace.marks.get address).isFree = true ∧
      (between.marks.get address).isFree = false := by
  obtain ⟨i, text, hdecode, rfl, hfree, hmarks⟩ := exists_claim_of_visit hvisit
  have hself := Buffer.address_mem_span hdecode
  refine ⟨Buffer.contains_of_mem_span hdecode hself, hfree _ hself, ?_⟩
  rw [hmarks, get_claim, if_pos rfl]
  rfl

/-- Fewer bytes are free when a path goes on. -/
lemma freeCount_lt_of_visit (hvisit : trace.visit useLabels buffer address = (between, some next)) :
    between.freeCount buffer < trace.freeCount buffer := by
  obtain ⟨i, text, hdecode, -, hfree, hmarks⟩ := exists_claim_of_visit hvisit
  exact freeCount_lt_of_claim hdecode hfree hmarks

/-! ### Paths -/

/-- A path takes nothing back. -/
lemma Walks.advances (h : Walks useLabels buffer trace address rounds after) :
    after.Advances trace := by
  induction h with
  | @stop trace after address hvisit =>
    have hadvances := advances_visit useLabels buffer trace address
    rwa [hvisit] at hadvances
  | @goOn trace between after address next rounds hvisit _ ih =>
    have hadvances := advances_visit useLabels buffer trace address
    rw [hvisit] at hadvances
    exact ih.trans hadvances

/-- **Each round of a path but the last one takes a free byte.** -/
theorem Walks.rounds_le (h : Walks useLabels buffer trace address rounds after) :
    rounds + after.freeCount buffer ≤ trace.freeCount buffer + 1 := by
  induction h with
  | stop hvisit =>
    have hle := (Walks.stop hvisit).advances.freeCount_le buffer
    omega
  | goOn hvisit _ ih =>
    have hlt := freeCount_lt_of_visit hvisit
    omega

/-- **A path ends by itself** within one round more than there are free bytes. -/
theorem walks_walk (useLabels : Bool) (address : UInt16) (h : trace.freeCount buffer < fuel) :
    ∃ rounds, Walks useLabels buffer trace address rounds
      (trace.walk useLabels buffer fuel address) := by
  induction fuel generalizing trace address with
  | zero => omega
  | succ fuel ih =>
    unfold walk
    split
    · next between next hvisit =>
      have hlt := freeCount_lt_of_visit hvisit
      obtain ⟨rounds, hrest⟩ := @ih between next (by omega)
      exact ⟨rounds + 1, .goOn hvisit hrest⟩
    · next after hvisit => exact ⟨1, .stop hvisit⟩

/-! ### All paths -/

/-- The first of the waiting addresses is taken off. -/
lemma next?_eq_some {rest : Trace} {start : UInt16} (h : trace.next? = some (rest, start)) :
    trace.waiting = start :: rest.waiting ∧ rest.marks = trace.marks ∧
      rest.paths = trace.paths := by
  obtain ⟨marks, paths, waiting, labels⟩ := trace
  cases waiting with
  | nil => simp [Trace.next?] at h
  | cons first waiting =>
    obtain ⟨rfl, rfl⟩ := Prod.mk.inj (Option.some.inj h)
    exact ⟨rfl, rfl, rfl⟩

/-- An address that is taken off the waiting ones need not be walked any more. -/
lemma budget_next? {rest : Trace} {start : UInt16} (h : trace.next? = some (rest, start)) :
    rest.budget < trace.budget := by
  obtain ⟨hwaiting, -, hpaths⟩ := next?_eq_some h
  rw [budget, budget, hwaiting, hpaths, List.length_cons]
  omega

/-- A trace without the first of its waiting addresses is a later one. -/
lemma advances_next? {rest : Trace} {start : UInt16} (h : trace.next? = some (rest, start)) :
    rest.Advances trace := by
  obtain ⟨hwaiting, hmarks, hpaths⟩ := next?_eq_some h
  refine ⟨by rw [hmarks]; exact id, by rw [hpaths]; exact id, ?_, fun ho => ⟨?_, fun ha => ?_⟩,
    Nat.le_of_lt (budget_next? h)⟩
  · rintro a (ha | ha)
    · exact .inl (hwaiting ▸ List.mem_cons_of_mem _ ha)
    · exact .inr (hpaths ▸ ha)
  · exact (List.nodup_cons.1 (hwaiting ▸ ho.nodup)).2
  · rw [hpaths]
    exact ho.paths (hwaiting ▸ List.mem_cons_of_mem _ ha)

/-- The first of the waiting addresses is a path at which none starts any more. -/
lemma Orderly.not_pending_next? {rest : Trace} {start : UInt16} (ho : trace.Orderly)
    (h : trace.next? = some (rest, start)) :
    rest.paths.get start = true ∧ ¬ rest.Pending start := by
  obtain ⟨hwaiting, -, hpaths⟩ := next?_eq_some h
  have hpath : rest.paths.get start = true :=
    hpaths ▸ ho.paths (hwaiting ▸ List.mem_cons_self)
  refine ⟨hpath, ?_⟩
  rintro (hwaits | hnone)
  · exact (List.nodup_cons.1 (hwaiting ▸ ho.nodup)).1 hwaits
  · exact ne_false_of_eq_true hpath hnone

namespace Runs

/-- All paths take nothing back. -/
lemma advances (h : Runs useLabels buffer trace log after) : after.Advances trace := by
  induction h with
  | done _ => exact .refl _
  | path hnext hwalk _ ih => exact (ih.trans hwalk.advances).trans (advances_next? hnext)

/-- A path starts where one may still start. -/
lemma pending_of_mem (h : Runs useLabels buffer trace log after) {a : UInt16}
    (ha : a ∈ log.map Prod.fst) : trace.Pending a := by
  induction h with
  | done _ => simp at ha
  | path hnext hwalk _ ih =>
    rcases List.mem_cons.1 ha with rfl | hlater
    · exact .inl ((next?_eq_some hnext).1 ▸ List.mem_cons_self)
    · exact (advances_next? hnext).pending (hwalk.advances.pending (ih hlater))

/-- **No two paths start at the same address**: an address that was taken off is not pending. -/
theorem nodup_starts (h : Runs useLabels buffer trace log after) (ho : trace.Orderly) :
    (log.map Prod.fst).Nodup := by
  induction h with
  | done _ => exact List.nodup_nil
  | @path trace rest between after start rounds log hnext hwalk hrest ih =>
    have hrestOrderly := (advances_next? hnext).orderly ho
    refine List.nodup_cons.2 ⟨fun hmem => ?_, ih (hwalk.advances.orderly hrestOrderly)⟩
    exact (ho.not_pending_next? hnext).2 (hwalk.advances.pending (hrest.pending_of_mem hmem))

/-- The start of a path is a path. -/
lemma paths_of_mem (h : Runs useLabels buffer trace log after) (ho : trace.Orderly) {a : UInt16}
    (ha : a ∈ log.map Prod.fst) : after.paths.get a = true := by
  induction h with
  | done _ => simp at ha
  | path hnext hwalk hrest ih =>
    rcases List.mem_cons.1 ha with rfl | hlater
    · exact hrest.advances.paths (hwalk.advances.paths (ho.not_pending_next? hnext).1)
    · exact ih (hwalk.advances.orderly ((advances_next? hnext).orderly ho)) hlater

/-- **The rounds of all paths**: one for each path, and one for each byte that was taken. -/
theorem rounds_le (h : Runs useLabels buffer trace log after) :
    (log.map Prod.snd).sum + after.freeCount buffer ≤ log.length + trace.freeCount buffer := by
  induction h with
  | done _ => simp
  | path hnext hwalk _ ih =>
    have hwalked := hwalk.rounds_le
    have hsame := (advances_next? hnext).freeCount_le buffer
    rw [List.map_cons, List.sum_cons, List.length_cons]
    omega

end Runs

/-- **All paths come to an end** in as many rounds as there are addresses that may still have to be
walked. -/
theorem runs_runFor (useLabels : Bool) (buffer : Buffer) (h : trace.budget ≤ fuel) :
    ∃ log, Runs useLabels buffer trace log (trace.runFor useLabels buffer fuel) := by
  induction fuel generalizing trace with
  | zero =>
    have hwaiting : trace.waiting.length = 0 := by
      rw [budget] at h
      omega
    obtain ⟨marks, paths, waiting, labels⟩ := trace
    obtain rfl := List.length_eq_zero_iff.1 hwaiting
    exact ⟨[], .done rfl⟩
  | succ fuel ih =>
    unfold runFor
    split
    · next hnext => exact ⟨[], .done hnext⟩
    · next rest start hnext =>
      obtain ⟨rounds, hwalk⟩ := walks_walk useLabels start
        (Nat.lt_add_one_of_le (rest.freeCount_le buffer))
      have hle := hwalk.advances.budget_le
      have hless := budget_next? hnext
      obtain ⟨log, hrest⟩ := ih (Nat.le_trans hle (by omega))
      exact ⟨(start, rounds) :: log, .path hnext hwalk hrest⟩

/-- The roots wait in order before the first of them is walked. -/
lemma orderly_roots (roots : List UInt16) : (roots.foldl queue empty).Orderly := by
  have hqueued : ∀ {trace : Trace}, trace.Orderly → (roots.foldl queue trace).Orderly := by
    induction roots with
    | nil => exact id
    | cons root roots ih => exact fun ho => ih ((advances_queue _ root).orderly ho)
  exact hqueued ⟨List.nodup_nil, fun ha => by simp [empty] at ha⟩

/-- The number of paths that a trace knows. -/
def pathCount (trace : Trace) : Nat :=
  allAddresses.countP trace.paths.get

/-- There are at most as many paths as addresses. -/
lemma pathCount_le (trace : Trace) : trace.pathCount ≤ addressCount :=
  calc trace.pathCount
      ≤ allAddresses.length := List.countP_le_length
    _ = addressCount := by rw [allAddresses, List.length_map, List.length_range]

/-- Different addresses of paths are at most as many as there are paths. -/
lemma length_le_pathCount {starts : List UInt16} (hnodup : starts.Nodup)
    (hpaths : ∀ a ∈ starts, trace.paths.get a = true) : starts.length ≤ trace.pathCount := by
  rw [pathCount, List.countP_eq_length_filter]
  have hsub : starts ⊆ allAddresses.filter trace.paths.get :=
    fun a ha => List.mem_filter.2 ⟨mem_allAddresses a, hpaths a ha⟩
  exact (List.subperm_of_subset hnodup hsub).length_le

/-- **Tracing comes to an end**, whatever cycles the jumps make.  Walking all paths without a bound
from the roots ends with the trace of `run`, and in no other way.  No address is the start of two
paths; there are at most as many as addresses that the trace knows as paths, and these are at most
65536 in any trace.  A round of a path that goes on takes a byte of the buffer that was free, and no
round sets one free; so all rounds together are at most as many as the paths and the bytes of the
buffer. -/
theorem runs_run (useLabels : Bool) (buffer : Buffer) (roots : List UInt16) :
    (∃ log : List (UInt16 × Nat),
      (∀ log' after, Runs useLabels buffer (roots.foldl queue empty) log' after ↔
        log' = log ∧ after = run useLabels buffer roots) ∧
      (log.map Prod.fst).Nodup ∧
      log.length ≤ (run useLabels buffer roots).pathCount ∧
      (log.map Prod.snd).sum ≤ log.length + buffer.size) ∧
    (∀ trace : Trace, trace.pathCount ≤ addressCount) ∧
    (∀ (trace between : Trace) (address next : UInt16),
      trace.visit useLabels buffer address = (between, some next) →
        ∃ a, buffer.contains a = true ∧ (trace.marks.get a).isFree = true ∧
          (between.marks.get a).isFree = false) ∧
    ∀ (trace : Trace) (address a : UInt16), (trace.marks.get a).isFree = false →
      ((trace.visit useLabels buffer address).1.marks.get a).isFree = false := by
  have horderly := orderly_roots roots
  obtain ⟨log, hruns⟩ := runs_runFor useLabels buffer (explored_roots buffer roots).2
  have hnodup := hruns.nodup_starts horderly
  have hlength := length_le_pathCount hnodup fun a ha => hruns.paths_of_mem horderly ha
  have hrounds := hruns.rounds_le
  have hfree := freeCount_le (roots.foldl queue empty) buffer
  rw [List.length_map] at hlength
  refine ⟨⟨log, fun log' after => ⟨hruns.unique, ?_⟩, hnodup, hlength, by omega⟩, pathCount_le,
    fun trace between address next hvisit => ⟨address, visit_claims hvisit⟩,
    fun trace address a => (advances_visit useLabels buffer trace address).taken⟩
  rintro ⟨rfl, rfl⟩
  exact hruns

end Trace

end Z80
