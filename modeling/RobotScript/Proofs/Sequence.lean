import RobotScript.Proofs.Course
import RobotScript.Proofs.Task

/-!
# Calls one after the other

Carrying out two blocks in one call is carrying out the first and, if it comes to its end, the
second on what the first leaves. A run does not look at its trace, so it does not matter that the
trace of the second call begins anew.

* `Eval.Oblivious`: a computation adds to the trace and does not look at it. So is every task.
* `Stage.run_seq`: two computations in one call, and in two.
* `Stage.Does`: what a call does, the events in its trace apart.
* `RunsInTurn`: one call does what two calls do one after the other.
* `runsInTurn_programs`: so does a program with the statements of two.
-/

namespace RobotScript

variable {ρ : Type} {robot : Robot ρ} {limits : Limits} {rounds : Nat}

/-- The run with an earlier trace before its own. -/
def Run.preceded (run : Run ρ) (past : Trace) : Run ρ := { run with trace := run.trace ++ past }

namespace Eval

/-- Runs that differ in what was there before them go on side by side. -/
def preceding (past : Trace) : Cutoff ρ ρ :=
  .lockstep (fun run run' => run' = run.preceded past) (by rintro run _ rfl; rfl)
    (by rintro run _ event rfl; rfl)

theorem preceding_raised {past : Trace} {run run' : Run ρ} (h : (preceding past).Like run run') :
    run'.scene.raised = run.scene.raised := by
  have hrun' : run' = run.preceded past := h
  rw [hrun']; rfl

/-- A computation that does nothing but change a run, whatever its trace is. -/
theorem tracks_preceding {α : Type} {past : Trace} {m : Eval ρ α} (hm : Walks robot limits m)
    (hok : ∀ run, ∃ a after, m run = .ok a after ∧
      m (run.preceded past) = .ok a (after.preceded past)) :
    Tracks (preceding past) robot limits m m := by
  refine ⟨hm, fun run run' like => .inl ?_⟩
  have hrun' : run' = run.preceded past := like
  obtain ⟨a, after, hrun, hpreceded⟩ := hok run
  rw [hrun', hrun, hpreceded]
  exact .ok rfl

theorem preceding_congruence (past : Trace) (robot : Robot ρ) (limits : Limits) (rounds : Nat) :
    LoopCongruence (fun _ m m' => Tracks (preceding past) robot limits m m') robot robot limits
      limits rounds rounds := by
  have walks := walks_congruence robot limits rounds
  exact {
    pure := tracks_pure
    bind := Tracks.bind
    divisionByZero := tracks_fail
    report := tracks_report
    perform := fun deed => tracks_preceding (walks.perform deed) fun _ => ⟨_, _, rfl, rfl⟩
    ask := fun query => tracks_preceding (walks.ask query) fun _ => ⟨_, _, rfl, rfl⟩
    readVar := fun name => tracks_preceding (walks.readVar name) fun _ => ⟨_, _, rfl, rfl⟩
    assign := fun name value => tracks_preceding (walks.assign name value) fun _ => ⟨_, _, rfl, rfl⟩
    checkStop := tracks_checkStop_alike preceding_raised
    checkpoint := tracks_checkpoint_alike preceding_raised fun like => by rw [like]; rfl
    whileHolds := fun htest hbody => htest.whileHolds hbody rounds }

/-- **The computation adds to the trace and does not look at it.** -/
def Oblivious (m : Eval ρ Unit) : Prop :=
  ∀ past run, Pairs (fun run run' => run' = run.preceded past) (m run) (m (run.preceded past))

theorem oblivious_of_tracks {m : Eval ρ Unit}
    (h : ∀ past, Tracks (preceding past) robot limits m m) : Oblivious m :=
  fun past _ => (h past).pairs (fun _ _ => id) rfl

end Eval

/-- **No task looks at the trace.** -/
theorem Task.oblivious (task : Task) (robot : Robot ρ) (limits : Limits) (rounds : Nat) :
    Eval.Oblivious (task.exec robot limits rounds) :=
  Eval.oblivious_of_tracks fun past => task.tracks (Eval.preceding_congruence past robot limits rounds)

theorem Statement.execAll_append (b₁ b₂ : Block) :
    Statement.execAll robot limits rounds (b₁ ++ b₂) =
      Statement.execAll robot limits rounds b₁ >>= fun _ => Statement.execAll robot limits rounds b₂ := by
  induction b₁ with
  | nil => rw [List.nil_append, Statement.execAll, pure_bind]
  | cons s rest ih =>
    rw [List.cons_append, Statement.execAll_cons, ih, Statement.execAll_cons, bind_assoc]

namespace Stage

variable {stage mid after : Stage ρ} {result : Except Error Unit} {trace : Trace} {b₁ b₂ : Block}

/-- A call begins where the one before it ended, with a new trace. -/
theorem toRun_ofRun (stage : Stage ρ) (run : Run ρ) :
    (stage.ofRun run).toRun = { run with trace := [] } := by
  have hraised := stage.board.isStopped_put stage.evaluator.signal run.scene.raised
  show Run.mk run.store run.steps ⟨run.scene.robot, _⟩ [] = _
  exact congrArg (fun raised => Run.mk run.store run.steps ⟨run.scene.robot, raised⟩ []) hraised

theorem ofRun_ofRun (stage : Stage ρ) (run last : Run ρ) :
    (stage.ofRun run).ofRun last = stage.ofRun last := by
  have hboard := stage.board.put_put stage.evaluator.signal run.scene.raised last.scene.raised
  exact congrArg (fun board => Stage.mk _ board _) hboard

theorem run_limits (stage : Stage ρ) (body : Eval ρ Unit) :
    (stage.run body).2.2.evaluator.limits = stage.evaluator.limits := by
  rw [run_eq]; rfl

/-- **Two computations in one call**: the second is done on what the first leaves. -/
theorem run_seq (stage : Stage ρ) (m : Eval ρ Unit) {m' : Eval ρ Unit} (hm' : Eval.Oblivious m') :
    stage.run (m >>= fun _ => m') =
      match stage.run m with
      | (.ok (), trace, mid) => ((mid.run m').1, trace ++ (mid.run m').2.1, (mid.run m').2.2)
      | (.error halt, trace, after) => (.error halt, trace, after) := by
  rw [run_eq stage m, run_eq]
  cases hfirst : m stage.toRun with
  | error halt run => rw [bind_eq_of_error hfirst]; rfl
  | ok a run =>
    rw [bind_eq_of_ok hfirst]
    show _ = (((stage.ofRun run).run m').1, run.trace.reverse ++ ((stage.ofRun run).run m').2.1,
      ((stage.ofRun run).run m').2.2)
    rw [run_eq (stage.ofRun run) m', toRun_ofRun]
    -- the second computation starts from the same run, before which the first took place
    have hpair := hm' run.trace { run with trace := [] }
    obtain ⟨hlast, houtcome⟩ := final_pairs hpair
    have hstart : Run.preceded { run with trace := [] } run.trace = run := rfl
    rw [hstart] at hlast houtcome
    rw [houtcome, hlast, ofRun_ofRun]
    simp only [Run.preceded, List.reverse_append]
    rfl

theorem run_append (stage : Stage ρ) (b₁ b₂ : Block) :
    stage.run ((Task.block (b₁ ++ b₂)).exec robot limits rounds) =
      match stage.run ((Task.block b₁).exec robot limits rounds) with
      | (.ok (), trace, mid) =>
        let later := mid.run ((Task.block b₂).exec robot limits rounds)
        (later.1, trace ++ later.2.1, later.2.2)
      | (.error halt, trace, after) => (.error halt, trace, after) := by
  have hseq := stage.run_seq ((Task.block b₁).exec robot limits rounds)
    ((Task.block b₂).oblivious robot limits rounds)
  rw [← hseq]
  exact congrArg stage.run (Statement.execAll_append b₁ b₂)

/-- What fails does so whatever was to follow. -/
theorem Returns.append_error {e : Error} (h : stage.Returns robot (.block b₁) (.error e) trace after)
    (b₂ : Block) : stage.Returns robot (.block (b₁ ++ b₂)) (.error e) trace after := by
  obtain ⟨rounds, hrun⟩ := returns_iff.1 h
  refine returns_iff.2 ⟨rounds, ?_⟩
  rw [run_append, hrun]; rfl

theorem Returns.append_ok {later : Trace} (h : stage.Returns robot (.block b₁) (.ok ()) trace mid)
    (h' : mid.Returns robot (.block b₂) result later after) :
    stage.Returns robot (.block (b₁ ++ b₂)) result (trace ++ later) after := by
  obtain ⟨n, hn⟩ := h
  obtain ⟨n', hn'⟩ := h'
  have hrun := hn (max n n') (by omega)
  have hrun' := hn' (max n n') (by omega)
  have hlimits : mid.evaluator.limits = stage.evaluator.limits := by
    rw [← stage.run_limits, hrun]
  rw [hlimits] at hrun'
  refine returns_iff.2 ⟨max n n', ?_⟩
  rw [run_append, hrun]
  show (_, trace ++ _, _) = _
  rw [hrun']

/-- A call on two blocks fails in the first, or it goes through the first to the second. -/
theorem Returns.of_append (h : stage.Returns robot (.block (b₁ ++ b₂)) result trace after) :
    (∃ e, result = .error e ∧ stage.Returns robot (.block b₁) result trace after) ∨
    ∃ mid first later, stage.Returns robot (.block b₁) (.ok ()) first mid ∧
      mid.Returns robot (.block b₂) result later after ∧ trace = first ++ later := by
  obtain ⟨rounds, hrun⟩ := returns_iff.1 h
  rw [run_append] at hrun
  cases hfirst : stage.run ((Task.block b₁).exec robot stage.evaluator.limits rounds) with
  | mk outcome rest =>
    obtain ⟨first, mid⟩ := rest
    rw [hfirst] at hrun
    cases outcome with
    | ok a =>
      right
      have hlimits : mid.evaluator.limits = stage.evaluator.limits := by
        rw [← stage.run_limits, hfirst]
      injection hrun with hresult hrest
      injection hrest with htrace hafter
      refine ⟨mid, first, _, returns_iff.2 ⟨rounds, hfirst⟩, returns_iff.2 ⟨rounds, ?_⟩, htrace.symm⟩
      rw [hlimits]
      exact Prod.ext hresult (Prod.ext rfl hafter)
    | error halt =>
      left
      have hsame : stage.Returns robot (.block b₁) result trace after :=
        returns_iff.2 ⟨rounds, hfirst.trans hrun⟩
      cases result with
      | ok a => cases hrun
      | error e => exact ⟨e, rfl, hsame⟩

end Stage

/-- **What a call does**, the events in its trace apart: its result, the calls on the robot and the
stage it leaves. -/
def Stage.Does (robot : Robot ρ) (stage : Stage ρ) (task : Task) (result : Except Error Unit)
    (calls : List Call) (after : Stage ρ) : Prop :=
  ∃ trace, stage.Returns robot task result trace after ∧ Trace.calls trace = calls

/-- **One call does what two calls do** one after the other. -/
structure RunsInTurn (robot : Robot ρ) (stage : Stage ρ) (joined first second : Task) : Prop where
  /-- If the first fails, they fail alike. -/
  failed {e : Error} {calls : List Call} {after : Stage ρ}
    (does : stage.Does robot first (.error e) calls after) :
    stage.Does robot joined (.error e) calls after
  /-- Otherwise all depends on the second, on what the first has left. -/
  passed {calls : List Call} {mid : Stage ρ} (does : stage.Does robot first (.ok ()) calls mid)
    (result : Except Error Unit) (all : List Call) (after : Stage ρ) :
    stage.Does robot joined result all after ↔
      ∃ later, all = calls ++ later ∧ mid.Does robot second result later after
  /-- If the first does not return, neither do they. -/
  returned {result : Except Error Unit} {calls : List Call} {after : Stage ρ}
    (does : stage.Does robot joined result calls after) :
    ∃ result calls after, stage.Does robot first result calls after

namespace Stage

variable {stage mid after : Stage ρ} {result result' : Except Error Unit} {calls calls' : List Call}

theorem Does.unique {after' : Stage ρ} {task : Task} (h : stage.Does robot task result calls after)
    (h' : stage.Does robot task result' calls' after') :
    result = result' ∧ calls = calls' ∧ after = after' := by
  obtain ⟨trace, hreturns, rfl⟩ := h
  obtain ⟨trace', hreturns', rfl⟩ := h'
  obtain ⟨hresult, htrace, hafter⟩ := hreturns.unique hreturns'
  exact ⟨hresult, congrArg Trace.calls htrace, hafter⟩

theorem runsInTurn_blocks (robot : Robot ρ) (stage : Stage ρ) (b₁ b₂ : Block) :
    RunsInTurn robot stage (.block (b₁ ++ b₂)) (.block b₁) (.block b₂) where
  failed := by
    rintro e _ after ⟨trace, hreturns, rfl⟩
    exact ⟨trace, hreturns.append_error b₂, rfl⟩
  passed := by
    rintro calls mid hdoes result all after
    constructor
    · rintro ⟨trace, hreturns, rfl⟩
      rcases hreturns.of_append with ⟨e, rfl, hfailed⟩ | ⟨mid', first, later, hfirst, hlater, rfl⟩
      · have hcontra := hdoes.unique ⟨trace, hfailed, rfl⟩
        cases hcontra.1
      · obtain ⟨-, rfl, rfl⟩ := hdoes.unique ⟨first, hfirst, rfl⟩
        exact ⟨Trace.calls later, Trace.calls_append first later, later, hlater, rfl⟩
    · rintro ⟨_, rfl, later, hlater, rfl⟩
      obtain ⟨first, hfirst, rfl⟩ := hdoes
      exact ⟨first ++ later, hfirst.append_ok hlater, Trace.calls_append first later⟩
  returned := by
    rintro result _ after ⟨trace, hreturns, rfl⟩
    rcases hreturns.of_append with ⟨e, rfl, hfailed⟩ | ⟨mid, first, later, hfirst, -, -⟩
    · exact ⟨_, _, _, trace, hfailed, rfl⟩
    · exact ⟨_, _, _, first, hfirst, rfl⟩

/-- Two calls give the same, the events in their traces apart. -/
def SameCalls (call call' : Except Halt Unit × Trace × Stage ρ) : Prop :=
  call.1 = call'.1 ∧ Trace.calls call.2.1 = Trace.calls call'.2.1 ∧ call.2.2 = call'.2.2

theorem SameCalls.symm {call call' : Except Halt Unit × Trace × Stage ρ} (h : SameCalls call call') :
    SameCalls call' call :=
  ⟨h.1.symm, h.2.1.symm, h.2.2.symm⟩

theorem Does.of_sameCalls {task task' : Task} (h : stage.Does robot task result calls after)
    (hsame : ∀ rounds, SameCalls (stage.run (task.exec robot stage.evaluator.limits rounds))
      (stage.run (task'.exec robot stage.evaluator.limits rounds))) :
    stage.Does robot task' result calls after := by
  obtain ⟨trace, hreturns, rfl⟩ := h
  obtain ⟨rounds, hrun⟩ := returns_iff.1 hreturns
  obtain ⟨hresult, hcalls, hafter⟩ := hsame rounds
  rw [hrun] at hresult hcalls hafter
  refine ⟨_, returns_iff.2 ⟨rounds, ?_⟩, hcalls.symm⟩
  exact Prod.ext hresult.symm (Prod.ext rfl hafter.symm)

/-- A report at the end is no call. -/
theorem run_closing (stage : Stage ρ) (m : Eval ρ Unit) :
    SameCalls (stage.run (Eval.closing m)) (stage.run m) := by
  rw [run_eq, run_eq]
  unfold Eval.closing
  cases m stage.toRun with
  | ok a run => exact ⟨rfl, calls_noting run [_], rfl⟩
  | error halt run =>
    cases halt with
    | error e => exact ⟨rfl, calls_noting run [_], rfl⟩
    | overflow | unfinished => exact ⟨rfl, rfl, rfl⟩

/-- **What a program does is what its statements do.** The reports around them are no calls. -/
theorem run_program (robot : Robot ρ) (limits : Limits) (rounds : Nat) (stage : Stage ρ)
    (p : Program) : SameCalls (stage.run ((Task.program p).exec robot limits rounds))
      (stage.run ((Task.block p.statements).exec robot limits rounds)) := by
  have hclosing : Eval.Oblivious (Eval.closing (Statement.execAll robot limits rounds p.statements)) :=
    Eval.oblivious_of_tracks fun past =>
      ((Eval.preceding_congruence past robot limits rounds).execAll p.statements).closing
  have hreport : stage.run (Eval.report (.executing p.statements.length)) =
      (.ok (), [.event (.executing p.statements.length)], stage) := by
    rw [run_eq]
    exact Prod.ext rfl (Prod.ext rfl (ofRun_toRun stage _))
  have hseq := stage.run_seq (Eval.report (.executing p.statements.length)) hclosing
  rw [hreport] at hseq
  have hprogram : stage.run ((Task.program p).exec robot limits rounds) = _ := hseq
  rw [hprogram]
  exact stage.run_closing _

theorem does_program_iff {p : Program} : stage.Does robot (.program p) result calls after ↔
    stage.Does robot (.block p.statements) result calls after := by
  have hsame := fun rounds => run_program robot stage.evaluator.limits rounds stage p
  exact ⟨fun h => h.of_sameCalls hsame, fun h => h.of_sameCalls fun rounds => (hsame rounds).symm⟩

end Stage

/-- **A program with the statements of two does what they do** one after the other. -/
theorem runsInTurn_programs (robot : Robot ρ) (stage : Stage ρ) (p₁ p₂ : Program) :
    RunsInTurn robot stage (.program ⟨p₁.statements ++ p₂.statements⟩) (.program p₁)
      (.program p₂) := by
  have hblocks := Stage.runsInTurn_blocks robot stage p₁.statements p₂.statements
  constructor
  · intro e calls after hdoes
    exact Stage.does_program_iff.2 (hblocks.failed (Stage.does_program_iff.1 hdoes))
  · intro calls mid hdoes result all after
    rw [Stage.does_program_iff, hblocks.passed (Stage.does_program_iff.1 hdoes)]
    simp only [Stage.does_program_iff]
  · intro result calls after hdoes
    obtain ⟨result', calls', after', h⟩ := hblocks.returned (Stage.does_program_iff.1 hdoes)
    exact ⟨result', calls', after', Stage.does_program_iff.2 h⟩

end RobotScript
