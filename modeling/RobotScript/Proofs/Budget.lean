import RobotScript.Robot.Scripted
import RobotScript.Proofs.Entry
import RobotScript.Proofs.Task

/-!
# A step budget

* `Evaluator.Serves`: what an evaluator goes through over any number of calls, against any
  robots.
* `Task.never_overflows`: with a step limit the counter does not come to its end.
* `returns_of_filled`: with a step limit, a call on a task without empty blocks returns.
* `returns_exhausted`: once the limit is used up, a call returns at its first statement and
  changes nothing.
* `step_budget_ends_every_run` puts together what a step limit gives.
-/

namespace RobotScript

open Run

/-- **What an evaluator goes through.** The trace is that of all calls so far. Between
calls everything but the limits and the counter may be changed from outside. -/
inductive Evaluator.Serves (start : Evaluator) : Trace → Evaluator → Prop
  | start : Serves start [] start
  | changed {trace : Trace} {before after : Evaluator} (serves : Serves start trace before)
      (limits : after.limits = before.limits) (steps : after.steps = before.steps) :
      Serves start trace after
  | call {ρ : Type} {robot : Robot ρ} {trace lately : Trace} {stage after : Stage ρ} {task : Task}
      {result : Except Error Unit} (serves : Serves start trace stage.evaluator)
      (returns : stage.Returns robot task result lately after) :
      Serves start (trace ++ lately) after.evaluator

theorem Stage.steps_eq {ρ : Type} {robot : Robot ρ} {limits : Limits} {stage : Stage ρ} {run : Run ρ}
    (h : Reaches robot limits stage.toRun run) :
    run.steps.toNat = stage.evaluator.steps.toNat + passed run.trace := by
  have hcount := h.counted
  have hnone : passed stage.toRun.trace = 0 := rfl
  rw [hnone] at hcount
  exact hcount

/-- **A limit keeps the counter from its end.** -/
theorem Task.never_overflows {ρ : Type} {limits : Limits} {limit : UInt64} (task : Task)
    (robot : Robot ρ) (hlimit : limits.maxSteps = some limit) (rounds : Nat) (run : Run ρ) :
    Stage.outcome (task.exec robot limits rounds run) ≠ .error .overflow := by
  intro hover
  have hlands := task.walks robot limits rounds run
  cases hend : task.exec robot limits rounds run with
  | ok a after => rw [hend] at hover; cases hover
  | error halt after =>
    -- an overflow comes from a checkpoint, and with a limit that gives another reason
    rw [hend] at hover hlands
    cases hover
    cases hlands.2 with
    | refused refuses => cases (refuses.of_limited hlimit).1

namespace Evaluator

variable {start e : Evaluator} {trace : Trace} {limit : UInt64}

theorem Serves.limits (h : start.Serves trace e) : e.limits = start.limits := by
  induction h with
  | start => rfl
  | changed _ limits _ ih => rw [limits, ih]
  | call _ returns ih =>
    obtain ⟨run, -, -, rfl, -⟩ := returns.reaches
    exact ih

/-- **The counter is the number of statements passed**, over all calls. -/
theorem Serves.counted (h : start.Serves trace e) :
    e.steps.toNat = start.steps.toNat + passed trace := by
  induction h with
  | start => rfl
  | changed _ _ steps ih => rw [steps, ih]
  | @call _ _ trace _ stage _ _ _ _ returns ih =>
    obtain ⟨run, hpath, rfl, rfl, -⟩ := returns.reaches
    have hsteps : (stage.ofRun run).evaluator.steps.toNat =
        stage.evaluator.steps.toNat + passed run.trace := Stage.steps_eq hpath
    have htrace : passed (trace ++ run.trace.reverse) = passed trace + passed run.trace := by
      simp only [passed, List.count_append, List.count_reverse]
    omega

theorem Serves.steps_le (h : start.Serves trace e) : start.steps ≤ e.steps := by
  rw [UInt64.le_iff_toNat_le, h.counted]
  exact Nat.le_add_right _ _

theorem Serves.within (hlimit : start.limits.maxSteps = some limit)
    (hstart : start.steps ≤ limit) (h : start.Serves trace e) : e.steps ≤ limit := by
  induction h with
  | start => exact hstart
  | changed _ _ steps ih => rw [steps]; exact ih
  | call serves returns ih =>
    obtain ⟨run, hpath, -, rfl, -⟩ := returns.reaches
    have hlimit' := hlimit
    rw [← serves.limits] at hlimit'
    exact hpath.within hlimit' ih

end Evaluator

namespace Stage

variable {ρ : Type} {robot : Robot ρ} {stage after : Stage ρ} {task : Task} {limit : UInt64}
  {trace : Trace}

/-- **A limited call returns**, unless a block is empty. -/
theorem returns_of_filled (robot : Robot ρ) (htask : task.Filled)
    (hlimit : stage.evaluator.limits.maxSteps = some limit)
    (hsteps : stage.evaluator.steps ≤ limit) :
    ∃ result trace after, stage.Returns robot task result trace after := by
  -- more rounds than the limit cannot all be used
  have hwalks := task.walks robot stage.evaluator.limits (limit.toNat + 1)
  have hwithin := (reaches_final hwalks stage.toRun).within hlimit hsteps
  have hfew : (final (task.exec robot stage.evaluator.limits (limit.toNat + 1)
      stage.toRun)).steps.toNat < stage.evaluator.steps.toNat + (limit.toNat + 1) := by
    rw [UInt64.le_iff_toNat_le] at hwithin
    omega
  exact returns_of_steps htask hfew (task.never_overflows robot hlimit _ _)

/-- A call that ends at the limit ends when the counter has reached it. -/
theorem Returns.exceeded {l : UInt64}
    (h : stage.Returns robot task (.error (.limitExceeded l)) trace after)
    (hlimit : stage.evaluator.limits.maxSteps = some limit)
    (hsteps : stage.evaluator.steps ≤ limit) :
    l = limit ∧ after.evaluator.steps = limit := by
  obtain ⟨run, hpath, -, rfl, harises⟩ := h.reaches
  have hwithin := hpath.within hlimit hsteps
  cases harises _ rfl with
  | refused refuses =>
    obtain ⟨hl, hreached⟩ := refuses.of_limited hlimit
    cases hl
    exact ⟨rfl, UInt64.le_antisymm hwithin hreached⟩

section

variable {limits : Limits} {rounds : Nat} (run : Run ρ) (hlowered : run.scene.raised = false)
  (hlimit : limits.maxSteps = some limit) (hsteps : limit ≤ run.steps)

include hlowered hlimit hsteps

theorem exec_exhausted (s : Statement) :
    s.exec robot limits rounds run = .error (.error (.limitExceeded limit)) run := by
  rw [Statement.exec_eq]
  exact bind_eq_of_error (Eval.checkpoint_refused hlowered (.limitExceeded hlimit hsteps))

theorem execAll_exhausted {body : Block} (hbody : body ≠ []) :
    Statement.execAll robot limits rounds body run = .error (.error (.limitExceeded limit)) run := by
  obtain ⟨s, rest, rfl⟩ := List.exists_cons_of_ne_nil hbody
  rw [Statement.execAll_cons, bind_apply, exec_exhausted run hlowered hlimit hsteps]

/-- Only a program reports anything when it halts at its first statement. -/
theorem task_exhausted (htask : task.statements ≠ []) :
    ∃ reports : List Event, task.exec robot limits rounds run =
      .error (.error (.limitExceeded limit))
        { run with trace := reports.map Mark.event ++ run.trace } := by
  cases task with
  | statement s => exact ⟨[], exec_exhausted run hlowered hlimit hsteps s⟩
  | block body => exact ⟨[], execAll_exhausted run hlowered hlimit hsteps htask⟩
  | program p =>
    refine ⟨[.aborted run.steps (.limitExceeded limit), .executing p.statements.length], ?_⟩
    let begun : Run ρ :=
      { run with trace := .event (.executing p.statements.length) :: run.trace }
    have hbegun : Statement.execAll robot limits rounds p.statements begun = _ :=
      execAll_exhausted begun hlowered hlimit hsteps htask
    show Eval.closing _ begun = _
    unfold Eval.closing
    rw [hbegun]; rfl

end

theorem passed_reports (reports : List Event) : passed (reports.map Mark.event) = 0 := by
  unfold passed
  rw [List.count_eq_zero]
  intro hmark
  obtain ⟨event, -, h⟩ := List.mem_map.1 hmark
  cases h

/-- **Once the limit is used up, a call returns at once** and leaves the stage as it was. -/
theorem returns_exhausted (robot : Robot ρ) (htask : task.statements ≠ [])
    (hlowered : stage.board.isStopped stage.evaluator.signal = false)
    (hlimit : stage.evaluator.limits.maxSteps = some limit)
    (hsteps : stage.evaluator.steps = limit) :
    ∃ quiet, stage.Returns robot task (.error (.limitExceeded limit)) quiet stage ∧
      Trace.calls quiet = [] ∧ passed quiet = 0 := by
  have hreached : limit ≤ stage.toRun.steps := hsteps ▸ UInt64.le_refl _
  obtain ⟨reports, hend⟩ : ∃ reports : List Event,
      task.exec robot stage.evaluator.limits 0 stage.toRun = _ :=
    task_exhausted stage.toRun hlowered hlimit hreached htask
  refine ⟨(reports.map Mark.event).reverse, ?_, ?_, ?_⟩
  · refine returns_of_run hend rfl ?_ (ofRun_toRun stage _)
    exact congrArg List.reverse (List.append_nil _)
  · rw [← List.map_reverse]; exact calls_reports _
  · rw [← List.map_reverse]; exact passed_reports _

end Stage

theorem Parser.program_derives {parser after : Parser} {p : Program}
    (h : parser.program = (.ok p, after)) : ∃ ts, Grammar.DerivesProgram ts p := by
  unfold Parser.program Parser.call at h
  split at h
  · rename_i p' rest hread
    cases h
    exact ⟨_, (Grammar.decides_program.sound hread).1⟩
  · cases h

theorem Parser.program_filled {parser after : Parser} {p : Program}
    (h : parser.program = (.ok p, after)) : (Task.program p).Filled := by
  obtain ⟨ts, hts⟩ := Parser.program_derives h
  exact hts.filled

/-- **What an evaluator with a step limit goes through**, from `start` on. -/
structure KeepsBudget (limit : UInt64) (start : Evaluator) : Prop where
  /-- Between calls the counter is the number of statements passed, within the limit. -/
  counts {trace : Trace} {e : Evaluator} (serves : start.Serves trace e) :
    e.steps.toNat = passed trace ∧ e.steps ≤ limit ∧ passed trace < UInt64.size
  /-- From one call to a later one the counter does not go down. -/
  grows {trace lately : Trace} {e e' : Evaluator} (serves : start.Serves trace e)
    (later : e.Serves lately e') : e.steps ≤ e'.steps
  /-- During a call, too. -/
  meanwhile {ρ : Type} (robot : Robot ρ) {trace : Trace} {stage : Stage ρ}
    (serves : start.Serves trace stage.evaluator) {run : Run ρ}
    (reaches : Reaches robot stage.evaluator.limits stage.toRun run) :
    run.steps.toNat = passed trace + passed run.trace ∧ run.steps ≤ limit ∧
      passed trace + passed run.trace < UInt64.size ∧
      ∀ next, Reaches robot stage.evaluator.limits run next → run.steps ≤ next.steps
  /-- As far as a call is followed, it is in such a state after each mark of its trace. -/
  through {ρ : Type} (robot : Robot ρ) (stage : Stage ρ) (task : Task) (rounds k : Nat) :
    ∃ run, Reaches robot stage.evaluator.limits stage.toRun run ∧
      Reaches robot stage.evaluator.limits run
        (Stage.final (task.exec robot stage.evaluator.limits rounds stage.toRun)) ∧
      run.trace.reverse =
        (stage.run (task.exec robot stage.evaluator.limits rounds)).2.1.take k
  /-- However long it is followed, no call overflows. -/
  counting {ρ : Type} (robot : Robot ρ) {trace : Trace} {stage : Stage ρ}
    (serves : start.Serves trace stage.evaluator) (task : Task) (rounds : Nat) :
    (stage.run (task.exec robot stage.evaluator.limits rounds)).1 ≠ .error .overflow
  /-- Every call on a task without empty blocks returns. -/
  returns {ρ : Type} (robot : Robot ρ) {trace : Trace} {stage : Stage ρ} {task : Task}
    (serves : start.Serves trace stage.evaluator) (filled : task.Filled) :
    ∃ result lately after, stage.Returns robot task result lately after
  /-- A call that exceeds the limit has used it up. -/
  exceeded {ρ : Type} {robot : Robot ρ} {trace lately : Trace} {stage after : Stage ρ} {task : Task}
    {l : UInt64} (serves : start.Serves trace stage.evaluator)
    (returned : stage.Returns robot task (.error (.limitExceeded l)) lately after) :
    l = limit ∧ after.evaluator.steps = limit
  /-- After that, while the signal is lowered, calls do nothing but give the same error. -/
  exhausted {ρ ρ' : Type} {robot : Robot ρ} {trace lately since : Trace} {stage after : Stage ρ}
    {task : Task} {l : UInt64} (serves : start.Serves trace stage.evaluator)
    (returned : stage.Returns robot task (.error (.limitExceeded l)) lately after)
    (robot' : Robot ρ') {later : Stage ρ'} {task' : Task}
    (serves' : after.evaluator.Serves since later.evaluator)
    (lowered : later.board.isStopped later.evaluator.signal = false)
    (nonempty : task'.statements ≠ []) :
    ∃ quiet, later.Returns robot' task' (.error (.limitExceeded limit)) quiet later ∧
      Trace.calls quiet = [] ∧ passed quiet = 0

/-- **A step budget makes every run end**; what the parser gives has no empty block. -/
theorem step_budget_ends_every_run {start : Evaluator} {limit : UInt64}
    (hlimit : start.limits.maxSteps = some limit) (hfresh : start.steps = 0) :
    KeepsBudget limit start ∧
      ∀ (parser after : Parser) (p : Program), parser.program = (.ok p, after) →
        (Task.program p).Filled := by
  have hstart : start.steps ≤ limit := by
    rw [hfresh, UInt64.le_iff_toNat_le]
    exact Nat.zero_le _
  have hkept : ∀ {trace e}, start.Serves trace e →
      e.limits.maxSteps = some limit ∧ e.steps ≤ limit := by
    intro trace e serves
    exact ⟨by rw [serves.limits]; exact hlimit, serves.within hlimit hstart⟩
  have hcounts : ∀ {trace e}, start.Serves trace e → e.steps.toNat = passed trace := by
    intro trace e serves
    rw [serves.counted, hfresh]
    exact Nat.zero_add _
  refine ⟨?_, ?_⟩
  · constructor
    case counts =>
      intro trace e serves
      refine ⟨hcounts serves, (hkept serves).2, ?_⟩
      rw [← hcounts serves]
      exact e.steps.toNat_lt_size
    case grows =>
      intro trace lately e e' _ later
      exact later.steps_le
    case meanwhile =>
      intro ρ robot trace stage serves run reaches
      have hsteps : run.steps.toNat = passed trace + passed run.trace := by
        rw [← hcounts serves]
        exact Stage.steps_eq reaches
      refine ⟨hsteps, reaches.within (hkept serves).1 (hkept serves).2, ?_, fun next hnext =>
        hnext.steps_le⟩
      rw [← hsteps]
      exact run.steps.toNat_lt_size
    case through =>
      intro ρ robot stage task rounds k
      rw [Stage.run_eq]
      have hpath := Stage.reaches_final (task.walks robot stage.evaluator.limits rounds) stage.toRun
      exact hpath.through k (Nat.zero_le k)
    case counting =>
      intro ρ robot trace stage serves task rounds
      rw [Stage.run_eq]
      exact task.never_overflows robot (hkept serves).1 rounds stage.toRun
    case returns =>
      intro ρ robot trace stage task serves filled
      exact Stage.returns_of_filled robot filled (hkept serves).1 (hkept serves).2
    case exceeded =>
      intro ρ robot trace lately stage after task l serves returned
      exact returned.exceeded (hkept serves).1 (hkept serves).2
    case exhausted =>
      intro ρ ρ' robot trace lately since stage after task l serves returned robot' later task'
        serves' lowered nonempty
      have hafter := (returned.exceeded (hkept serves).1 (hkept serves).2).2
      have hlater := hkept (serves.call returned)
      refine Stage.returns_exhausted robot' nonempty lowered ?_ ?_
      · rw [serves'.limits]; exact hlater.1
      · have hup := serves'.steps_le
        have hdown := serves'.within hlater.1 hlater.2
        rw [hafter] at hup
        exact UInt64.le_antisymm hdown hup
  · intro parser after p hp
    exact Parser.program_filled hp

/-- Two steps are the loop and one turn. -/
theorem loop_ends_after_two_steps : ∃ lately after,
    (Stage.fresh ⟨some 2⟩ ({} : Scripted)).Returns Scripted.robot
      (.block [.loop [.action .turnL none]]) (.error (.limitExceeded 2)) lately after ∧
    Trace.calls lately = [.deed .turnLeft] ∧ after.evaluator.steps = 2 ∧
    ∃ quiet, after.Returns Scripted.robot (.statement (.action .move none))
      (.error (.limitExceeded 2)) quiet after ∧ Trace.calls quiet = [] := by
  have hbudget : KeepsBudget 2 (Stage.fresh ⟨some 2⟩ ({} : Scripted)).evaluator :=
    (step_budget_ends_every_run rfl rfl).1
  obtain ⟨lately, after, hreturns, hcalls, hlowered⟩ : ∃ lately after,
      (Stage.fresh ⟨some 2⟩ ({} : Scripted)).Returns Scripted.robot
        (.block [.loop [.action .turnL none]]) (.error (.limitExceeded 2)) lately after ∧
      Trace.calls lately = [.deed .turnLeft] ∧
      after.board.isStopped after.evaluator.signal = false := by
    have hend : Task.exec Scripted.robot ⟨some 2⟩ 3 (.block [.loop [.action .turnL none]])
        (Stage.fresh ⟨some 2⟩ ({} : Scripted)).toRun = _ := rfl
    exact ⟨_, _, Stage.returns_of_run hend rfl rfl rfl, rfl, rfl⟩
  have hsteps := (hbudget.exceeded .start hreturns).2
  have hmove : (Task.statement (.action .move none)).statements ≠ [] := List.cons_ne_nil _ _
  obtain ⟨quiet, hquiet, hnone, -⟩ := hbudget.exhausted .start hreturns Scripted.robot .start
    hlowered hmove
  exact ⟨lately, after, hreturns, hcalls, hsteps, quiet, hquiet, hnone⟩

end RobotScript
