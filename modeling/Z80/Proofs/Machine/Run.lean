import Z80.Proofs.Machine.Refusal

/-!
# Runs are repeated steps

A run steps a machine until its budget is used up, the machine halts or a step fails.  What it
leaves and reports is determined by the steps that it makes, and a run that goes on from the end of
another one is the longer run.

## Main definitions

* `Z80.Machine.Steps` — steps of a machine one behind the other, where only the last may halt.
* `Z80.RunReport.ofSteps` — what a run reports of its steps.
* `Z80.RunReport.append` — what a run and the one that goes on from its end report together.

## Main results

* `Z80.Machine.run_eq_ok_iff`, `Z80.Machine.run_eq_error_iff` — the steps of a run.
* `Z80.Machine.run_add` — a run of which the budget is split.
* `Z80.Machine.run_spec` — runs are repeated steps, and additive.

## Design

A step of a halted machine succeeds and reports the halt, so a run that starts halted makes one such
step, which changes nothing and which it does not count.  A budget of 0 allows no step, and such a
run reports that the machine goes on even if it is halted.  This is why the run that goes on from
the end of another one has a positive budget.
-/

namespace Z80

/-- Whether a machine goes on behind steps. -/
def statusBehind (reports : List StepReport) : Status :=
  (reports.getLast?.map StepReport.status).getD .running

/-- What a run reports of its steps.  The step of a machine that is halted from the start does not
count. -/
def RunReport.ofSteps (isHalted : Bool) (reports : List StepReport) : RunReport where
  steps := if isHalted then 0 else reports.length
  status := statusBehind reports
  events := (reports.flatMap StepReport.events).toArray

/-- What a run and the one that goes on from its end report together. -/
def RunReport.append (first more : RunReport) : RunReport :=
  ⟨first.steps + more.steps, more.status, first.events ++ more.events⟩

namespace RunReport

/-- A report in front of that of several others. -/
@[simp]
lemma append_assoc (first second third : RunReport) :
    (first.append second).append third = first.append (second.append third) := by
  simp [append, Nat.add_assoc, Array.append_assoc]

/-- The report of no steps in front of another one. -/
@[simp]
lemma empty_append (status : Status) (more : RunReport) :
    append ⟨0, status, #[]⟩ more = more := by
  simp [append]

end RunReport

/-- Nothing has halted in front of the first step. -/
@[simp]
lemma statusBehind_nil : statusBehind [] = .running := rfl

/-- One step says whether the machine goes on. -/
@[simp]
lemma statusBehind_singleton (report : StepReport) : statusBehind [report] = report.status := rfl

/-- Behind a step that does not halt, the others say whether the machine goes on. -/
lemma statusBehind_cons {report : StepReport} (h : report.status = .running)
    (more : List StepReport) : statusBehind (report :: more) = statusBehind more := by
  cases more with
  | nil => exact h
  | cons next more => simp [statusBehind, List.getLast?_cons]

namespace Machine

variable {M : Type} [Bus M] {m middle after last : Machine M}

/-- Steps of a machine, each of which succeeds, one behind the other.  Behind a step that halts
there is no other. -/
inductive Steps : Machine M → List StepReport → Machine M → Prop
  | nil (m : Machine M) : Steps m [] m
  | halt {m after : Machine M} {report : StepReport} (hstep : m.step = (after, .ok report))
      (hhalted : report.status = .halted) : Steps m [report] after
  | cons {m after last : Machine M} {report : StepReport} {more : List StepReport}
      (hstep : m.step = (after, .ok report)) (hrunning : report.status = .running)
      (hmore : Steps after more last) : Steps m (report :: more) last

/-! ### One step -/

/-- A step of a halted machine changes nothing. -/
lemma step_of_isHalted (h : m.isHalted = true) :
    m.step = (m, .ok ⟨m.registers.pc, m.registers.pc, .halted, []⟩) := by
  simp [step, h]

/-- A step that fails leaves the machine as it was. -/
lemma step_of_error {fault : UnknownOpcode} (h : m.step.2 = .error fault) :
    m.step = (m, .error fault) :=
  Prod.ext (step_fst_of_error h) h

/-- A step reports a halt exactly if the machine behind it is halted. -/
lemma status_eq_halted_iff {report : StepReport} (hstep : m.step = (after, .ok report)) :
    report.status = .halted ↔ after.isHalted = true := by
  cases hrunning : m.isHalted with
  | true =>
    rw [step_of_isHalted hrunning] at hstep
    cases hstep
    exact ⟨fun _ => hrunning, fun _ => rfl⟩
  | false =>
    cases hd : Descriptor.decode m.read m.registers.pc with
    | error bytes =>
      rw [step_of_decode_error hrunning hd] at hstep
      cases hstep
    | ok d =>
      obtain ⟨op, -, -, hperform⟩ := step_eq hrunning hd
      rw [hperform] at hstep
      cases hstep
      simp [finish, goTo]

/-- A machine behind a step that does not halt is not halted. -/
lemma isHalted_eq_false {report : StepReport} (hstep : m.step = (after, .ok report))
    (hrunning : report.status = .running) : after.isHalted = false := by
  cases hafter : after.isHalted with
  | false => rfl
  | true => exact absurd ((status_eq_halted_iff hstep).2 hafter) (by simp [hrunning])

/-- A machine that steps without a halt was not halted. -/
lemma isHalted_eq_false_of_running {report : StepReport} (hstep : m.step = (after, .ok report))
    (hrunning : report.status = .running) : m.isHalted = false := by
  cases hm : m.isHalted with
  | false => rfl
  | true =>
    rw [step_of_isHalted hm] at hstep
    cases hstep
    cases hrunning

/-! ### What a run adds to a report -/

/-- A run adds what it reports to what was done before, unless it has no budget. -/
lemma runFrom_append (m : Machine M) (first done : RunReport) (budget : Nat) :
    m.runFrom (first.append done) budget =
      ((m.runFrom done budget).1, (m.runFrom done budget).2.map first.append) := by
  induction budget generalizing m done with
  | zero => rfl
  | succ budget ih =>
    rcases hstep : m.step with ⟨after, fault | report⟩
    · simp only [runFrom, hstep, Except.map]
    · have hdone (count : Nat) :
          (⟨(first.append done).steps + count, report.status,
            (first.append done).events ++ report.events⟩ : RunReport) =
          first.append ⟨done.steps + count, report.status, done.events ++ report.events⟩ := by
        simp [RunReport.append, Nat.add_assoc, ← Array.toList_inj]
      simp only [runFrom, hstep, hdone]
      cases report.status with
      | halted => rfl
      | running => exact ih after _

/-- What a run reports of one step that does not halt. -/
def reportOf (report : StepReport) : RunReport :=
  ⟨1, .running, report.events.toArray⟩

/-- A run goes on behind a step that does not halt. -/
lemma run_succ_of_running {report : StepReport} (hstep : m.step = (after, .ok report))
    (hrunning : report.status = .running) (budget : Nat) :
    m.run (budget + 1) =
      ((after.run budget).1, (after.run budget).2.map (reportOf report).append) := by
  simp only [run, ← runFrom_append]
  simp [runFrom, hstep, hrunning, isHalted_eq_false_of_running hstep hrunning, reportOf,
    RunReport.append]

/-- A run ends behind a step that halts. -/
lemma run_succ_of_halted {report : StepReport} (hstep : m.step = (after, .ok report))
    (hhalted : report.status = .halted) (budget : Nat) :
    m.run (budget + 1) = (after, .ok (.ofSteps m.isHalted [report])) := by
  simp [run, runFrom, hstep, hhalted, RunReport.ofSteps]

/-- A run ends in front of a step that fails. -/
lemma run_succ_of_error {fault : UnknownOpcode} (hstep : m.step.2 = .error fault) (budget : Nat) :
    m.run (budget + 1) = (m, .error fault) := by
  simp [run, runFrom, step_of_error hstep]

/-- A run that starts halted leaves the machine and counts no step. -/
lemma run_of_isHalted (h : m.isHalted = true) (budget : Nat) :
    m.run budget = (m, .ok ⟨0, if budget = 0 then .running else .halted, #[]⟩) := by
  cases budget with
  | zero => rfl
  | succ budget =>
    rw [run_succ_of_halted (step_of_isHalted h) rfl, h]
    rfl

/-! ### The steps of a run -/

/-- The report of a step that does not halt and of others behind it. -/
lemma ofSteps_cons {report : StepReport} (hrunning : report.status = .running)
    (more : List StepReport) :
    RunReport.ofSteps false (report :: more) =
      (reportOf report).append (.ofSteps false more) := by
  simp [RunReport.ofSteps, RunReport.append, reportOf, statusBehind_cons hrunning, Nat.add_comm]

/-- **The steps of a run that succeeds** use up its budget or end with a halt. -/
theorem run_eq_ok_iff {budget : Nat} {result : RunReport} :
    m.run budget = (last, .ok result) ↔
      ∃ reports, Steps m reports last ∧ reports.length ≤ budget ∧
        (reports.length = budget ∨ statusBehind reports = .halted) ∧
        result = .ofSteps m.isHalted reports := by
  induction budget generalizing m result with
  | zero =>
    constructor
    · rintro h
      cases h
      exact ⟨[], .nil last, Nat.le_refl 0, .inl rfl, by simp [RunReport.ofSteps]⟩
    · rintro ⟨reports, hsteps, hlength, -, rfl⟩
      obtain rfl := List.length_eq_zero_iff.1 (Nat.le_zero.1 hlength)
      cases hsteps
      simp [run, runFrom, RunReport.ofSteps]
  | succ budget ih =>
    constructor
    · intro h
      rcases hstep : m.step with ⟨after, fault | report⟩
      · rw [run_succ_of_error (congrArg Prod.snd hstep)] at h
        cases h
      · cases hstatus : report.status with
        | halted =>
          rw [run_succ_of_halted hstep hstatus] at h
          cases h
          exact ⟨[report], .halt hstep hstatus, by simp, .inr hstatus, rfl⟩
        | running =>
          rw [run_succ_of_running hstep hstatus, Prod.mk.injEq, map_eq_ok_iff] at h
          obtain ⟨hlast, result, hresult, rfl⟩ := h
          obtain ⟨more, hmore, hlength, hend, rfl⟩ := ih.1 (Prod.ext hlast hresult)
          refine ⟨report :: more, .cons hstep hstatus hmore, by simpa using hlength, ?_, ?_⟩
          · rw [statusBehind_cons hstatus]
            simpa using hend
          · rw [isHalted_eq_false_of_running hstep hstatus, isHalted_eq_false hstep hstatus,
              ofSteps_cons hstatus]
    · rintro ⟨reports, hsteps, hlength, hend, rfl⟩
      cases hsteps with
      | nil => simp at hend
      | halt hstep hstatus => rw [run_succ_of_halted hstep hstatus]
      | @cons _ after _ report more hstep hstatus hmore =>
        rw [statusBehind_cons hstatus] at hend
        have hrun := ih.2 ⟨more, hmore, by simpa using hlength, by simpa using hend, rfl⟩
        rw [run_succ_of_running hstep hstatus, hrun, isHalted_eq_false_of_running hstep hstatus,
          isHalted_eq_false hstep hstatus, ofSteps_cons hstatus]
        rfl

/-- **The steps of a run that fails** end in front of one that fails, within its budget. -/
theorem run_eq_error_iff {budget : Nat} {fault : UnknownOpcode} :
    m.run budget = (last, .error fault) ↔
      ∃ reports, Steps m reports last ∧ reports.length < budget ∧
        statusBehind reports = .running ∧ last.step = (last, .error fault) := by
  induction budget generalizing m with
  | zero =>
    constructor
    · rintro h
      cases h
    · rintro ⟨reports, -, hlength, -⟩
      cases hlength
  | succ budget ih =>
    constructor
    · intro h
      rcases hstep : m.step with ⟨after, fault' | report⟩
      · rw [run_succ_of_error (congrArg Prod.snd hstep)] at h
        cases h
        exact ⟨[], .nil last, by simp, rfl, step_of_error (congrArg Prod.snd hstep)⟩
      · cases hstatus : report.status with
        | halted =>
          rw [run_succ_of_halted hstep hstatus] at h
          cases h
        | running =>
          rw [run_succ_of_running hstep hstatus, Prod.mk.injEq, map_eq_error_iff] at h
          obtain ⟨more, hmore, hlength, hend, hfault⟩ := ih.1 (Prod.ext h.1 h.2)
          exact ⟨report :: more, .cons hstep hstatus hmore, by simpa using hlength,
            (statusBehind_cons hstatus more).trans hend, hfault⟩
    · rintro ⟨reports, hsteps, hlength, hend, hfault⟩
      cases hsteps with
      | nil => exact run_succ_of_error (congrArg Prod.snd hfault) budget
      | halt hstep hstatus =>
        rw [statusBehind_singleton, hstatus] at hend
        cases hend
      | @cons _ after _ report more hstep hstatus hmore =>
        rw [statusBehind_cons hstatus] at hend
        have hrun := ih.2 ⟨more, hmore, by simpa using hlength, hend, hfault⟩
        rw [run_succ_of_running hstep hstatus, hrun]
        rfl

/-! ### Runs that go on -/

/-- **A budget may be split**: what a run does behind the end of another one is what the longer run
does. -/
theorem run_add {j k : Nat} {first : RunReport} (hj : m.run j = (middle, .ok first))
    (hk : 1 ≤ k) :
    m.run (j + k) = ((middle.run k).1, (middle.run k).2.map first.append) := by
  induction j generalizing m first with
  | zero =>
    cases hj
    rw [Nat.zero_add]
    rcases middle.run k with ⟨last, fault | rest⟩ <;> simp [Except.map]
  | succ j ih =>
    rw [Nat.add_right_comm]
    rcases hstep : m.step with ⟨after, fault | report⟩
    · rw [run_succ_of_error (congrArg Prod.snd hstep)] at hj
      cases hj
    · cases hstatus : report.status with
      | halted =>
        rw [run_succ_of_halted hstep hstatus] at hj ⊢
        cases hj
        rw [run_of_isHalted ((status_eq_halted_iff hstep).1 hstatus), if_neg (by omega)]
        simp [Except.map, RunReport.append, RunReport.ofSteps, hstatus]
      | running =>
        rw [run_succ_of_running hstep hstatus, Prod.mk.injEq, map_eq_ok_iff] at hj
        obtain ⟨hmiddle, rest, hrest, rfl⟩ := hj
        rw [run_succ_of_running hstep hstatus, ih (Prod.ext hmiddle hrest)]
        cases (middle.run k).2 <;> simp [Except.map]

/-- **Runs are repeated steps.**  A run makes as many steps as its budget allows, up to the first
that halts or to the one that fails; it leaves the machine behind these steps, which is the one in
front of the step that fails, and reports that fault, or else the number of the steps, whether the
last one halts and the events of all in their order.  A run that goes on from the end of another one
is the longer run: it ends in the same machine and with the same fault, or the longer run reports
the sum of the steps, the events of the first and then the second, and the status of the second.  A
run of a machine that is halted executes nothing and counts no step.

**Proof sketch.** A run with a positive budget reports its first step in front of what the run
behind it reports, so everything follows by induction on the budget.  Where the first run halts, the
machine behind it is halted, and the second run makes one step that does not count. -/
theorem run_spec (m : Machine M) (j k : Nat) (hk : 1 ≤ k) :
    (∀ last result, m.run j = (last, .ok result) ↔
      ∃ reports, Steps m reports last ∧ reports.length ≤ j ∧
        (reports.length = j ∨ statusBehind reports = .halted) ∧
        result = .ofSteps m.isHalted reports) ∧
    (∀ last fault, m.run j = (last, .error fault) ↔
      ∃ reports, Steps m reports last ∧ reports.length < j ∧
        statusBehind reports = .running ∧ last.step = (last, .error fault)) ∧
    (∀ middle first, m.run j = (middle, .ok first) →
      (m.run (j + k)).1 = (middle.run k).1 ∧
      (∀ fault, (middle.run k).2 = .error fault → (m.run (j + k)).2 = .error fault) ∧
      ∀ more, (middle.run k).2 = .ok more →
        (m.run (j + k)).2 =
          .ok ⟨first.steps + more.steps, more.status, first.events ++ more.events⟩) ∧
    (m.isHalted = true → ∀ budget,
      m.run budget = (m, .ok ⟨0, if budget = 0 then .running else .halted, #[]⟩)) := by
  refine ⟨fun last result => run_eq_ok_iff, fun last fault => run_eq_error_iff,
    fun middle first hj => ?_, run_of_isHalted⟩
  rw [run_add hj hk]
  exact ⟨rfl, fun fault hfault => map_eq_error_iff.2 hfault,
    fun more hmore => map_eq_ok_iff.2 ⟨more, hmore, rfl⟩⟩

/-- The third step of a run halts, within the budget of the second part. -/
theorem run_spec_halt :
    ∃ m middle last : Machine Memory,
      m.memory = Memory.blank.load 0 [0x3E, 0x05, 0x3C, 0x76] ∧
      m.run 2 = (middle, .ok ⟨2, .running, #[]⟩) ∧
      middle.run 3 = (last, .ok ⟨1, .halted, #[]⟩) ∧
      m.run (2 + 3) = (last, .ok ⟨3, .halted, #[]⟩) := by
  -- `ld a,05h`, `inc a`, `halt`
  have hfirst : ((start (Memory.blank.load 0 [0x3E, 0x05, 0x3C, 0x76]) {}).run 2).2 =
      .ok ⟨2, .running, #[]⟩ := by
    decide +kernel
  have hmore : (((start (Memory.blank.load 0 [0x3E, 0x05, 0x3C, 0x76]) {}).run 2).1.run 3).2 =
      .ok ⟨1, .halted, #[]⟩ := by
    decide +kernel
  obtain ⟨-, -, hadd, -⟩ := run_spec
    (start (Memory.blank.load 0 [0x3E, 0x05, 0x3C, 0x76]) {}) 2 3 (by decide)
  obtain ⟨hlast, -, hreport⟩ := hadd _ _ (Prod.ext rfl hfirst)
  exact ⟨_, _, _, rfl, Prod.ext rfl hfirst, Prod.ext rfl hmore,
    Prod.ext hlast (hreport _ hmore)⟩

end Machine

end Z80
