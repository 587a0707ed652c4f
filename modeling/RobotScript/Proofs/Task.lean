import RobotScript.Evaluator
import RobotScript.Proofs.Rounds

/-!
# Calls on an evaluator

* `Task`: what an evaluator can be told to carry out.
* `Stage.Returns`: a call comes to an end, whatever rounds its loops are allowed beyond some
  number. `Returns.unique` says that it does so in one way only.
* `Stage.returns_of_run`: a call returns if it is not cut for some number of rounds.
-/

namespace RobotScript

/-- **What an evaluator can be told to carry out.** -/
inductive Task
  | program (program : Program)
  | block (block : Block)
  | statement (statement : Statement)

namespace Task

variable {ρ : Type} {robot : Robot ρ} {limits : Limits} {rounds rounds' : Nat}

/-- The statements that are carried out one after the other. -/
def statements : Task → Block
  | .program p => p.statements
  | .block body => body
  | .statement s => [s]

/-- No block in the task is empty. -/
def Filled (task : Task) : Prop := ∀ s ∈ task.statements, s.Filled

def exec (robot : Robot ρ) (limits : Limits) (rounds : Nat) : Task → Eval ρ Unit
  | .program p => p.exec robot limits rounds
  | .block body => Statement.execAll robot limits rounds body
  | .statement s => s.exec robot limits rounds

theorem walks (task : Task) (robot : Robot ρ) (limits : Limits) (rounds : Nat) :
    Eval.Walks robot limits (task.exec robot limits rounds) := by
  cases task with
  | program p => exact Eval.walks_program rounds p
  | block body => exact Eval.walks_execAll rounds body
  | statement s => exact Eval.walks_exec rounds s

/-- What holds between the evaluations of statements holds between those of tasks. -/
theorem tracks {ρ' : Type} {robot' : Robot ρ'} {limits' : Limits} {cut : Cutoff ρ ρ'}
    (h : Eval.LoopCongruence (fun _ m m' => Eval.Tracks cut robot limits m m') robot robot' limits
      limits' rounds rounds') (task : Task) :
    Eval.Tracks cut robot limits (task.exec robot limits rounds)
      (task.exec robot' limits' rounds') := by
  cases task with
  | program p => exact h.bind (h.report _) fun _ => (h.execAll p.statements).closing
  | block body => exact h.execAll body
  | statement s => exact h.exec s

/-- With fewer rounds a task keeps to what it does with more. -/
theorem fewerRounds (task : Task) (robot : Robot ρ) (limits : Limits) (h : rounds ≤ rounds') :
    Eval.Tracks Eval.roundsCut robot limits (task.exec robot limits rounds')
      (task.exec robot limits rounds) :=
  task.tracks (Eval.fewerRounds_congruence robot limits h)

theorem extended (task : Task) (robot : Robot ρ) (limits : Limits) (h : rounds ≤ rounds') :
    Eval.Extends (task.exec robot limits rounds) (task.exec robot limits rounds') :=
  (task.fewerRounds robot limits h).extends

theorem Filled.spends {task : Task} (h : task.Filled) :
    Eval.Spends rounds (task.exec robot limits rounds) := by
  cases task with
  | program p => exact (Eval.pays_program h).2
  | block body => exact (Eval.pays_execAll h).2
  | statement s => exact (Eval.pays_exec (h s List.mem_cons_self)).2

end Task

namespace Stage

variable {ρ : Type} {robot : Robot ρ} {stage after after' : Stage ρ} {task : Task}
  {result result' : Except Error Unit} {trace trace' : Trace}

theorem calls_reports (reports : List Event) : Trace.calls (reports.map Mark.event) = [] := by
  unfold Trace.calls
  rw [List.filterMap_eq_nil_iff]
  intro mark hmark
  obtain ⟨event, -, rfl⟩ := List.mem_map.1 hmark
  rfl

theorem calls_noting (run : Run ρ) (events : List Event) :
    Trace.calls (run.noting events).trace.reverse = Trace.calls run.trace.reverse := by
  have hnone : Trace.calls (events.map Mark.event).reverse = [] := by
    rw [← List.map_reverse]
    exact calls_reports _
  unfold Run.noting
  rw [List.reverse_append]
  show List.filterMap _ (_ ++ _) = _
  rw [List.filterMap_append]
  exact (congrArg _ hnone).trans (List.append_nil _)

theorem run_ok {α : Type} {stage : Stage ρ} {m : Eval ρ α} {value : α} {last : Run ρ}
    (h : m stage.toRun = .ok value last) :
    stage.run m = (.ok value, last.trace.reverse, stage.ofRun last) := by
  unfold Stage.run
  rw [h]

theorem run_error {α : Type} {stage : Stage ρ} {m : Eval ρ α} {halt : Halt} {last : Run ρ}
    (h : m stage.toRun = .error halt last) :
    stage.run m = (.error halt, last.trace.reverse, stage.ofRun last) := by
  unfold Stage.run
  rw [h]

/-- **A call returns** with a result, after a trace, and leaves a stage. -/
def Returns (robot : Robot ρ) (stage : Stage ρ) (task : Task) (result : Except Error Unit)
    (trace : Trace) (after : Stage ρ) : Prop :=
  ∃ enough, ∀ rounds, enough ≤ rounds →
    stage.run (task.exec robot stage.evaluator.limits rounds) =
      (result.mapError Halt.error, trace, after)

/-- Nothing but the trace tells the stage before a run from the one after it. -/
theorem ofRun_toRun (stage : Stage ρ) (trace : Trace) :
    stage.ofRun { stage.toRun with trace := trace } = stage := by
  have hboard : stage.board.put stage.evaluator.signal stage.toRun.scene.raised = stage.board :=
    stage.board.put_isStopped stage.evaluator.signal
  unfold Stage.ofRun
  rw [hboard]; rfl

/-- What a call gives when its run has come to an end. -/
def outcome : EStateM.Result Halt (Run ρ) Unit → Except Halt Unit
  | .ok a _ => .ok a
  | .error halt _ => .error halt

/-- The state in which a run has come to an end. -/
def final : EStateM.Result Halt (Run ρ) Unit → Run ρ
  | .ok _ run => run
  | .error _ run => run

theorem run_eq (stage : Stage ρ) (body : Eval ρ Unit) :
    stage.run body = (outcome (body stage.toRun), (final (body stage.toRun)).trace.reverse,
      stage.ofRun (final (body stage.toRun))) := by
  unfold Stage.run
  cases body stage.toRun <;> rfl

theorem reaches_of_lands {limits : Limits} {run : Run ρ} {halted : EStateM.Result Halt (Run ρ) Unit}
    (h : Eval.Lands robot limits run halted) : Run.Reaches robot limits run (final halted) := by
  cases halted with
  | ok a after => exact h
  | error halt after => exact h.1

theorem reaches_final {limits : Limits} {m : Eval ρ Unit} (h : Eval.Walks robot limits m)
    (run : Run ρ) : Run.Reaches robot limits run (final (m run)) :=
  reaches_of_lands (h run)

theorem final_pairs {ρ' : Type} {Like : Run ρ → Run ρ' → Prop}
    {halted : EStateM.Result Halt (Run ρ) Unit} {halted' : EStateM.Result Halt (Run ρ') Unit}
    (h : Eval.Pairs Like halted halted') :
    Like (final halted) (final halted') ∧ outcome halted' = outcome halted := by
  cases h with
  | ok like => exact ⟨like, rfl⟩
  | error like => exact ⟨like, rfl⟩

theorem mapError_injective {r r' : Except Error Unit}
    (h : r.mapError Halt.error = r'.mapError Halt.error) : r = r' := by
  cases r with
  | ok a =>
    cases r' with
    | ok b => rfl
    | error e => cases h
  | error e =>
    cases r' with
    | ok b => cases h
    | error e' => cases h; rfl

/-- **A call returns in one way only.** -/
theorem Returns.unique (h : stage.Returns robot task result trace after)
    (h' : stage.Returns robot task result' trace' after') :
    result = result' ∧ trace = trace' ∧ after = after' := by
  obtain ⟨n, hn⟩ := h
  obtain ⟨n', hn'⟩ := h'
  have heq := (hn (max n n') (by omega)).symm.trans (hn' (max n n') (by omega))
  injection heq with hresult hrest
  injection hrest with htrace hafter
  exact ⟨mapError_injective hresult, htrace, hafter⟩

/-- A call that is not cut returns. -/
theorem returns_of_run {rounds : Nat} {halted : EStateM.Result Halt (Run ρ) Unit}
    (h : task.exec robot stage.evaluator.limits rounds stage.toRun = halted)
    (hresult : outcome halted = result.mapError Halt.error)
    (htrace : (final halted).trace.reverse = trace) (hafter : stage.ofRun (final halted) = after) :
    stage.Returns robot task result trace after := by
  refine ⟨rounds, fun rounds' hle => ?_⟩
  rcases task.extended robot stage.evaluator.limits hle stage.toRun with hsame | ⟨cut, hcut⟩
  · rw [run_eq, hsame, h, hresult, htrace, hafter]
  · rw [hcut] at h
    subst h
    cases result <;> cases hresult

/-- A call returns, unless a block is empty, if it is allowed more rounds than it counts
statements and does not overflow. -/
theorem returns_of_steps {rounds : Nat} (htask : task.Filled)
    (h : (final (task.exec robot stage.evaluator.limits rounds stage.toRun)).steps.toNat <
      stage.evaluator.steps.toNat + rounds)
    (hroom : outcome (task.exec robot stage.evaluator.limits rounds stage.toRun) ≠
      .error .overflow) :
    ∃ result trace after, stage.Returns robot task result trace after := by
  cases hend : task.exec robot stage.evaluator.limits rounds stage.toRun with
  | ok a run => exact ⟨.ok (), _, _, returns_of_run hend rfl rfl rfl⟩
  | error halt run =>
    cases halt with
    | error err => exact ⟨.error err, _, _, returns_of_run hend rfl rfl rfl⟩
    | overflow => rw [hend] at hroom; exact absurd rfl hroom
    | unfinished =>
      have hspent := htask.spends hend
      rw [hend] at h
      exact absurd hspent (Nat.not_le.2 h)

/-- A call that returns is not cut for some number of rounds. -/
theorem Returns.ends (h : stage.Returns robot task result trace after) : ∃ rounds halted,
    task.exec robot stage.evaluator.limits rounds stage.toRun = halted ∧
      outcome halted = result.mapError Halt.error ∧ (final halted).trace.reverse = trace ∧
      stage.ofRun (final halted) = after := by
  obtain ⟨n, hn⟩ := h
  have hrun := hn n (Nat.le_refl n)
  rw [run_eq] at hrun
  injection hrun with hresult hrest
  injection hrest with htrace hafter
  exact ⟨n, _, rfl, hresult, htrace, hafter⟩

/-- A call returns what it gives for some number of rounds. -/
theorem returns_iff : stage.Returns robot task result trace after ↔
    ∃ rounds, stage.run (task.exec robot stage.evaluator.limits rounds) =
      (result.mapError Halt.error, trace, after) := by
  constructor
  · rintro ⟨n, hn⟩
    exact ⟨n, hn n (Nat.le_refl n)⟩
  · rintro ⟨rounds, hrun⟩
    rw [run_eq] at hrun
    injection hrun with hresult hrest
    injection hrest with htrace hafter
    exact returns_of_run rfl hresult htrace hafter

/-- If two runs end alike, whatever rounds their loops are allowed, then the second call returns
when the first one does. -/
theorem Returns.alike {ρ' : Type} {robot' : Robot ρ'} {stage' : Stage ρ'} {task' : Task}
    {Like : Run ρ → Run ρ' → Prop} (h : stage.Returns robot task result trace after)
    (hpairs : ∀ rounds, Eval.Pairs Like
      (task.exec robot stage.evaluator.limits rounds stage.toRun)
      (task'.exec robot' stage'.evaluator.limits rounds stage'.toRun)) :
    ∃ last last', Like last last' ∧ last.trace.reverse = trace ∧ stage.ofRun last = after ∧
      stage'.Returns robot' task' result last'.trace.reverse (stage'.ofRun last') := by
  obtain ⟨rounds, halted, hend, hresult, htrace, hafter⟩ := h.ends
  have hpair := hpairs rounds
  rw [hend] at hpair
  obtain ⟨hlike, houtcome⟩ := final_pairs hpair
  have hresult' := houtcome.trans hresult
  exact ⟨_, _, hlike, htrace, hafter, returns_of_run rfl hresult' rfl rfl⟩

/-- A call that returns has taken a path, and what it gives has a reason. -/
theorem Returns.reaches (h : stage.Returns robot task result trace after) :
    ∃ run, Run.Reaches robot stage.evaluator.limits stage.toRun run ∧ trace = run.trace.reverse ∧
      after = stage.ofRun run ∧
      ∀ e, result = .error e → (Halt.error e).Arises stage.evaluator.limits run := by
  obtain ⟨n, halted, hend, hresult, htrace, hafter⟩ := h.ends
  have hwalks := task.walks robot stage.evaluator.limits n
  have hlands := hwalks stage.toRun
  rw [hend] at hlands
  refine ⟨final halted, reaches_of_lands hlands, htrace.symm, hafter.symm, ?_⟩
  rintro e rfl
  cases halted with
  | ok a run => cases hresult
  | error halt run => cases hresult; exact hlands.2

end Stage

end RobotScript
