import Mathlib.Data.List.Induction
import RobotScript.Proofs.Budget

/-!
# What cuts a run short

A step limit and a stop signal end a run early, and do nothing else to it.

* `limited_or_exceeded`: a limited call does what the unlimited one does, or exceeds its limit on
  the way. `budget_only_truncates` gives the limit from which on nothing changes.
* `Robot.Twin`: two robots that answer alike, one of which may raise the stop signal from a
  certain call on.
* `stop_only_truncates`: against the second robot a call does what it does against the first, or
  is interrupted on the way.
-/

namespace RobotScript

open Run

variable {ρ ρ' : Type} {limits : Limits}

/-- The stage with another step limit, or with none. -/
def Stage.limited (stage : Stage ρ) (budget : Option UInt64) : Stage ρ :=
  { stage with evaluator := { stage.evaluator with limits := ⟨budget⟩ } }

namespace Eval

/-- A limited run is the same as an unlimited one until that counts a statement too many, or
overflows because it cannot. -/
def budgetCut (limit : UInt64) : Cutoff ρ ρ :=
  .same (.error (.limitExceeded limit)) fun mid last =>
    mid = none ∨ mid = some last.counting ∧ last.steps < last.counting.steps

theorem tracks_checkpoint_limited (robot : Robot ρ) (limit : UInt64) :
    Tracks (budgetCut limit) robot ⟨none⟩ (checkpoint ⟨none⟩) (checkpoint ⟨some limit⟩) := by
  refine ⟨walks_checkpoint, fun run run' like => ?_⟩
  have like : run = run' := like
  subst like
  rcases checkpoint_cases ⟨some limit⟩ run with ⟨hraised, hrun⟩ | ⟨halt, hlowered, hrefused, hrun⟩ |
    ⟨hlowered, hallowed, hrun⟩
  · left
    rw [hrun, checkpoint_raised hraised]
    exact .error rfl
  · right
    obtain ⟨rfl, -⟩ := hrefused.of_limited rfl
    -- without a limit the statement is counted, if the counter has room for it
    rcases (⟨none⟩ : Limits).allows_or_refuses run.steps with hfree | ⟨halt, hfull⟩
    · rw [checkpoint_allowed hlowered hfree]
      exact ⟨some run.counting, run, [], .inr ⟨rfl, hfree.lt_succ⟩, hrun, nofun, .refl _⟩
    · rw [checkpoint_refused hlowered hfull]
      cases hfull with
      | limitExceeded limited => cases limited
      | overflow => exact ⟨none, run, [], .inl rfl, hrun, nofun, run, rfl⟩
  · left
    have hfree : (⟨none⟩ : Limits).Allows run.steps := ⟨nofun, hallowed.room⟩
    rw [hrun, checkpoint_allowed hlowered hfree]
    exact .ok rfl

theorem budget_congruence (robot : Robot ρ) (limit : UInt64) (rounds : Nat) :
    LoopCongruence (fun _ m m' => Tracks (budgetCut limit) robot ⟨none⟩ m m') robot robot ⟨none⟩
      ⟨some limit⟩ rounds rounds := by
  have walks := walks_congruence robot ⟨none⟩ rounds
  exact {
    pure := tracks_pure
    bind := Tracks.bind
    divisionByZero := tracks_fail
    report := tracks_report
    perform := fun deed => tracks_self (walks.perform deed)
    ask := fun query => tracks_self (walks.ask query)
    readVar := fun name => tracks_self (walks.readVar name)
    assign := fun name value => tracks_self (walks.assign name value)
    checkStop := tracks_self walks.checkStop
    checkpoint := tracks_checkpoint_limited robot limit
    whileHolds := fun htest hbody => htest.whileHolds hbody rounds }

end Eval

namespace Stage

variable {robot : Robot ρ} {stage after : Stage ρ} {task : Task} {result : Except Error Unit}
  {trace : Trace}

theorem calls_counting (run : Run ρ) :
    Trace.calls run.counting.trace.reverse = Trace.calls run.trace.reverse := by
  unfold Run.counting Trace.calls
  simp

/-- The task, followed for as many rounds without a limit and with one. -/
theorem exec_limited (robot : Robot ρ) (task : Task) (limit : UInt64) (rounds : Nat) (run : Run ρ) :
    task.exec robot ⟨some limit⟩ rounds run = task.exec robot ⟨none⟩ rounds run ∨
      ∃ last,
        task.exec robot ⟨some limit⟩ rounds run = .error (.error (.limitExceeded limit)) last ∧
        (outcome (task.exec robot ⟨none⟩ rounds run) = .error .overflow ∨
          last.steps < (final (task.exec robot ⟨none⟩ rounds run)).steps ∧
          Trace.calls last.trace.reverse <+:
            Trace.calls (final (task.exec robot ⟨none⟩ rounds run)).trace.reverse) := by
  have htracks := task.tracks (Eval.budget_congruence robot limit rounds)
  rcases htracks.2 run run rfl with hpair | ⟨mid, last, events, hstops, hcut, -, hgoes⟩
  · exact .inl hpair.eq
  · refine .inr ⟨last.noting events, hcut, ?_⟩
    rcases hstops with rfl | ⟨rfl, hless⟩
    · obtain ⟨full, hfull⟩ := hgoes
      exact .inl (by rw [hfull]; rfl)
    · -- the unlimited run counts the statement that is one too many, and goes on
      have hpath := reaches_of_lands hgoes
      refine .inr ⟨UInt64.lt_of_lt_of_le hless hpath.steps_le, ?_⟩
      rw [calls_noting, ← calls_counting]
      exact hpath.calls_prefix

/-- **A limited call does what the unlimited one does, or exceeds its limit on the way.** -/
theorem limited_or_exceeded (h : (stage.limited none).Returns robot task result trace after)
    (limit : UInt64) :
    (stage.limited (some limit)).Returns robot task result trace (after.limited (some limit)) ∨
      ∃ cut short, (stage.limited (some limit)).Returns robot task (.error (.limitExceeded limit))
        cut short ∧ short.evaluator.steps < after.evaluator.steps ∧
        Trace.calls cut <+: Trace.calls trace := by
  obtain ⟨rounds, halted, hend, hresult, htrace, hafter⟩ := h.ends
  have hend : task.exec robot ⟨none⟩ rounds stage.toRun = halted := hend
  have hrun := exec_limited robot task limit rounds stage.toRun
  rw [hend] at hrun
  rcases hrun with hsame | ⟨last, hcut, hover | ⟨hsteps, hcalls⟩⟩
  · left
    refine returns_of_run hsame hresult htrace ?_
    rw [← hafter]; rfl
  · -- a call that overflows does not return
    rw [hover] at hresult
    cases result <;> cases hresult
  · right
    refine ⟨_, _, returns_of_run hcut rfl rfl rfl, ?_, ?_⟩
    · rw [← hafter]; exact hsteps
    · rw [← htrace]; exact hcalls

/-- What a limited call does without exceeding its limit, the unlimited one does. -/
theorem unlimited_of_limited {limit : UInt64}
    (h : (stage.limited (some limit)).Returns robot task result trace after)
    (hresult : ∀ l, result ≠ .error (.limitExceeded l)) :
    (stage.limited none).Returns robot task result trace (after.limited none) := by
  obtain ⟨rounds, halted, hend, houtcome, htrace, hafter⟩ := h.ends
  have hend : task.exec robot ⟨some limit⟩ rounds stage.toRun = halted := hend
  rcases exec_limited robot task limit rounds stage.toRun with hsame | ⟨last, hcut, -⟩
  · rw [hend] at hsame
    refine returns_of_run hsame.symm houtcome htrace ?_
    rw [← hafter]; rfl
  · rw [hend] at hcut
    subst hcut
    cases result with
    | ok a => cases houtcome
    | error e => cases houtcome; exact absurd rfl (hresult limit)

/-- A call that ends at a limit has counted that many statements. -/
theorem le_steps_of_exceeded {limit l : UInt64}
    (h : (stage.limited (some limit)).Returns robot task (.error (.limitExceeded l)) trace after) :
    limit ≤ after.evaluator.steps := by
  obtain ⟨run, -, -, rfl, harises⟩ := h.reaches
  cases harises _ rfl with
  | refused refuses => exact (refuses.of_limited rfl).2

/-- A limited call does not count past its limit. -/
theorem steps_le_limit {limit : UInt64}
    (h : (stage.limited (some limit)).Returns robot task result trace after)
    (hstart : stage.evaluator.steps ≤ limit) : after.evaluator.steps ≤ limit := by
  obtain ⟨run, hpath, -, rfl, -⟩ := h.reaches
  exact hpath.within rfl hstart

end Stage

/-- **A step limit only cuts a call short**: from the number of statements on that the call needs,
nothing changes, and below it the call ends at the limit, after some of its robot calls. Two
limits that are not exceeded, or none, make no difference. -/
theorem budget_only_truncates (robot : Robot ρ) (stage : Stage ρ) (task : Task) :
    (∀ (result : Except Error Unit) (trace : Trace) (after : Stage ρ),
      (stage.limited none).Returns robot task result trace after → ∀ limit : UInt64,
        (after.evaluator.steps ≤ limit →
          (stage.limited (some limit)).Returns robot task result trace
            (after.limited (some limit))) ∧
        (stage.evaluator.steps ≤ limit → limit < after.evaluator.steps →
          ∃ cut short, (stage.limited (some limit)).Returns robot task
            (.error (.limitExceeded limit)) cut short ∧
            short.evaluator.steps = limit ∧ Trace.calls cut <+: Trace.calls trace)) ∧
    ∀ (budget budget' : Option UInt64) (result : Except Error Unit) (trace : Trace)
      (after : Stage ρ), (stage.limited budget).Returns robot task result trace after →
      (∀ l, result ≠ .error (.limitExceeded l)) →
      (∀ l cut short,
        ¬ (stage.limited budget').Returns robot task (.error (.limitExceeded l)) cut short) →
      (stage.limited budget').Returns robot task result trace (after.limited budget') := by
  refine ⟨fun result trace after h limit => ⟨fun henough => ?_, fun hstart hshort => ?_⟩, ?_⟩
  · rcases Stage.limited_or_exceeded h limit with hsame | ⟨cut, short, hcut, hless, -⟩
    · exact hsame
    · -- a cut comes where the limit is reached, and that is before the unlimited call ends
      have hreached := Stage.le_steps_of_exceeded hcut
      exact absurd (UInt64.lt_of_le_of_lt hreached hless) (UInt64.not_lt.2 henough)
  · rcases Stage.limited_or_exceeded h limit with hsame | ⟨cut, short, hcut, -, hcalls⟩
    · have hwithin := Stage.steps_le_limit hsame hstart
      exact absurd hwithin (UInt64.not_le.2 hshort)
    · exact ⟨cut, short, hcut, (hcut.exceeded rfl hstart).2, hcalls⟩
  · intro budget budget' result trace after h hresult hnever
    have hfree : (stage.limited none).Returns robot task result trace (after.limited none) := by
      cases budget with
      | none =>
        have hafter : after.limited none = after := by
          obtain ⟨run, -, -, rfl, -⟩ := h.reaches
          rfl
        rw [hafter]; exact h
      | some limit => exact Stage.unlimited_of_limited h hresult
    cases budget' with
    | none => exact hfree
    | some limit =>
      rcases Stage.limited_or_exceeded hfree limit with hsame | ⟨cut, short, hcut, -, -⟩
      · exact hsame
      · exact absurd hcut (hnever limit cut short)

/-- Three statements need a limit of three; with two the last call on the robot is not made. -/
theorem three_statements_need_three :
    let task : Task := .program ⟨[.assign "$a" (.sensor .fuelLeft), .action .turnL none,
      .action .move (some (.number 2))]⟩
    let stage : Stage Scripted := Stage.fresh {} { fuel := 5 }
    ∃ trace after, (stage.limited none).Returns Scripted.robot task (.ok ()) trace after ∧
      Trace.calls trace = [.query .fuel, .deed .turnLeft, .deed .moveStep, .deed .moveStep] ∧
      (stage.limited (some 3)).Returns Scripted.robot task (.ok ()) trace
        (after.limited (some 3)) ∧
      ∃ cut short, (stage.limited (some 2)).Returns Scripted.robot task
        (.error (.limitExceeded 2)) cut short ∧ short.evaluator.steps = 2 ∧
        Trace.calls cut <+: Trace.calls trace := by
  intro task stage
  obtain ⟨trace, after, hfree, hcalls, hsteps⟩ : ∃ trace after,
      (stage.limited none).Returns Scripted.robot task (.ok ()) trace after ∧
      Trace.calls trace = [.query .fuel, .deed .turnLeft, .deed .moveStep, .deed .moveStep] ∧
      after.evaluator.steps = 3 := by
    have hend : task.exec Scripted.robot ⟨none⟩ 0 (stage.limited none).toRun = _ := rfl
    exact ⟨_, _, Stage.returns_of_run hend rfl rfl rfl, rfl, rfl⟩
  have htruncates := (budget_only_truncates Scripted.robot stage task).1 _ _ _ hfree
  have hthree : after.evaluator.steps ≤ 3 := by rw [hsteps]; decide
  have htwo : 2 < after.evaluator.steps := by rw [hsteps]; decide
  exact ⟨trace, after, hfree, hcalls, (htruncates 3).1 hthree, (htruncates 2).2 (by decide) htwo⟩

/-- At the end of the counter an unlimited call breaks off, and a limited one is past its limit. -/
example :
    let fresh : Stage Scripted := Stage.fresh {} {}
    let stage := { fresh with evaluator := { fresh.evaluator with steps := Eval.maxCount } }
    let p : Program := ⟨[.action .turnL none]⟩
    (stage.run (p.exec Scripted.robot ⟨none⟩ 0)).1 = .error .overflow ∧
      (stage.run (p.exec Scripted.robot ⟨some 5⟩ 0)).1 = .error (.error (.limitExceeded 5)) := by
  decide

/-- The scene after a call. -/
def Robot.next (robot : Robot ρ) (scene : Scene ρ) : Call → Scene ρ
  | .deed deed => robot.act deed scene
  | .query query => (robot.sense query scene).2

/-- The scene after calls, made one after the other. -/
def Robot.follow (robot : Robot ρ) (scene : Scene ρ) (calls : List Call) : Scene ρ :=
  calls.foldl robot.next scene

theorem Robot.follow_concat (robot : Robot ρ) (scene : Scene ρ) (calls : List Call) (call : Call) :
    robot.follow scene (calls ++ [call]) = robot.next (robot.follow scene calls) call := by
  unfold follow
  rw [List.foldl_append, List.foldl_cons, List.foldl_nil]

/-- **Two robots that give the same answers to the same calls.** The first leaves the stop signal
alone; the second leaves it lowered before its `k`-th call and does with it what it likes in that
call and later. -/
structure Robot.Twin (robot : Robot ρ) (start : ρ) (robot' : Robot ρ') (start' : ρ') (k : Nat) :
    Prop where
  same (calls : List Call) (query : Query) :
    (robot'.sense query (robot'.follow ⟨start', false⟩ calls)).1 =
      (robot.sense query (robot.follow ⟨start, false⟩ calls)).1
  untouched (calls : List Call) : (robot.follow ⟨start, false⟩ calls).raised = false
  lowered (calls : List Call) (early : calls.length < k) :
    (robot'.follow ⟨start', false⟩ calls).raised = false

/-- The two runs have made the same calls, with the same store and counter. -/
structure Run.Alike (robot : Robot ρ) (start : ρ) (robot' : Robot ρ') (start' : ρ') (run : Run ρ)
    (run' : Run ρ') : Prop where
  store : run'.store = run.store
  steps : run'.steps = run.steps
  calls : Trace.calls run'.trace.reverse = Trace.calls run.trace.reverse
  scene : run.scene = robot.follow ⟨start, false⟩ (Trace.calls run.trace.reverse)
  scene' : run'.scene = robot'.follow ⟨start', false⟩ (Trace.calls run.trace.reverse)

namespace Run.Alike

variable {robot : Robot ρ} {start : ρ} {robot' : Robot ρ'} {start' : ρ'} {run : Run ρ}
  {run' : Run ρ'}

theorem noted (h : Alike robot start robot' start' run run') (events events' : List Event) :
    Alike robot start robot' start' (run.noting events) (run'.noting events') where
  store := h.store
  steps := h.steps
  calls := by rw [Stage.calls_noting, Stage.calls_noting]; exact h.calls
  scene := by rw [Stage.calls_noting]; exact h.scene
  scene' := by rw [Stage.calls_noting]; exact h.scene'

theorem counted (h : Alike robot start robot' start' run run') :
    Alike robot start robot' start' run.counting run'.counting where
  store := h.store
  steps := congrArg (· + 1) h.steps
  calls := by rw [Stage.calls_counting, Stage.calls_counting]; exact h.calls
  scene := by rw [Stage.calls_counting]; exact h.scene
  scene' := by rw [Stage.calls_counting]; exact h.scene'

theorem calls_call (call : Call) (raised : Bool) (trace : Trace) :
    Trace.calls (Mark.call call raised :: trace).reverse = Trace.calls trace.reverse ++ [call] := by
  unfold Trace.calls
  simp

/-- Runs that are alike stay so when both make the same call. -/
theorem called (h : Alike robot start robot' start' run run') (call : Call) :
    Alike robot start robot' start'
      { run with
        scene := robot.next run.scene call
        trace := .call call (robot.next run.scene call).raised :: run.trace }
      { run' with
        scene := robot'.next run'.scene call
        trace := .call call (robot'.next run'.scene call).raised :: run'.trace } where
  store := h.store
  steps := h.steps
  calls := by rw [calls_call, calls_call, h.calls]
  scene := by rw [calls_call, Robot.follow_concat, ← h.scene]
  scene' := by rw [calls_call, Robot.follow_concat, ← h.scene']

end Run.Alike

namespace Eval

/-- A run against the second robot is like the one against the first until it sees the signal
raised. -/
def stopCut (robot : Robot ρ) (start : ρ) (robot' : Robot ρ') (start' : ρ') : Cutoff ρ ρ' where
  Like := Alike robot start robot' start'
  halt := .error .interrupted
  Stops mid last := ∃ run, mid = some run ∧ Alike robot start robot' start' run last ∧
    last.scene.raised = true
  steps_eq h := h.steps
  reported event h := h.noted [event] [event]

section

variable {robot : Robot ρ} {start : ρ} {robot' : Robot ρ'} {start' : ρ'} {k : Nat}
  (twin : robot.Twin start robot' start' k)

include twin

theorem tracks_checkStop : Tracks (stopCut robot start robot' start') robot limits
    (checkStop : Eval ρ Unit) (checkStop : Eval ρ' Unit) := by
  refine ⟨walks_checkStop, fun run run' like => ?_⟩
  have hlowered : run.scene.raised = false := by rw [like.scene]; exact twin.untouched _
  rw [checkStop_lowered hlowered]
  cases hraised : run'.scene.raised with
  | true =>
    right
    exact ⟨some run, run', [.stopObserved run'.steps], ⟨run, rfl, like, hraised⟩,
      checkStop_raised hraised, nofun, .refl run⟩
  | false =>
    left
    rw [checkStop_lowered hraised]
    exact .ok like

theorem tracks_checkpoint (limits : Limits) :
    Tracks (stopCut robot start robot' start') robot limits
      (checkpoint limits : Eval ρ Unit) (checkpoint limits : Eval ρ' Unit) := by
  refine ⟨walks_checkpoint, fun run run' like => ?_⟩
  have hlowered : run.scene.raised = false := by rw [like.scene]; exact twin.untouched _
  rcases checkpoint_cases limits run' with ⟨hraised, hrun⟩ | ⟨halt, -, hrefused, hrun⟩ |
    ⟨-, hallowed, hrun⟩
  · right
    exact ⟨some run, run', [.stopObserved run'.steps], ⟨run, rfl, like, hraised⟩, hrun, nofun,
      walks_checkpoint run⟩
  · left
    rw [like.steps] at hrefused
    rw [hrun, checkpoint_refused hlowered hrefused]
    exact .error like
  · left
    rw [like.steps] at hallowed
    rw [hrun, checkpoint_allowed hlowered hallowed]
    exact .ok like.counted

theorem stop_congruence (limits : Limits) (rounds : Nat) :
    LoopCongruence (fun _ m m' => Tracks (stopCut robot start robot' start') robot limits m m')
      robot robot' limits limits rounds rounds := by
  have walks := walks_congruence robot limits rounds
  exact {
    pure := tracks_pure
    bind := Tracks.bind
    divisionByZero := tracks_fail
    report := tracks_report
    perform := fun deed =>
      ⟨walks.perform deed, fun _ _ like => .inl (.ok (like.called (.deed deed)))⟩
    ask := fun query => ⟨walks.ask query, fun run run' like => .inl (by
      have hreading : (robot'.sense query run'.scene).1 = (robot.sense query run.scene).1 := by
        rw [like.scene, like.scene']
        exact twin.same _ query
      show Pairs _ (.ok (robot.sense query run.scene).1 _) (.ok (robot'.sense query run'.scene).1 _)
      rw [hreading]
      exact .ok (like.called (.query query)))⟩
    readVar := fun name => ⟨walks.readVar name, fun run run' like => .inl (by
      show Pairs _ (.ok (run.store.read name).1 _) (.ok (run'.store.read name).1 _)
      rw [like.store]
      exact .ok ⟨rfl, like.steps, like.calls, like.scene, like.scene'⟩)⟩
    assign := fun name value => ⟨walks.assign name value, fun run run' like =>
      .inl (.ok ⟨congrArg (·.set name value) like.store, like.steps, like.calls, like.scene,
        like.scene'⟩)⟩
    checkStop := tracks_checkStop twin
    checkpoint := tracks_checkpoint twin limits
    whileHolds := fun htest hbody => htest.whileHolds hbody rounds }

end

end Eval

/-- The stage with another robot. -/
def Stage.withRobot (stage : Stage ρ) (robot : ρ') : Stage ρ' :=
  ⟨stage.evaluator, stage.board, robot⟩

theorem Stage.toRun_alike {robot : Robot ρ} {robot' : Robot ρ'} {stage : Stage ρ} {start' : ρ'}
    (hlowered : stage.board.isStopped stage.evaluator.signal = false) :
    Alike robot stage.robot robot' start' stage.toRun (stage.withRobot start').toRun where
  store := rfl
  steps := rfl
  calls := rfl
  scene := congrArg (Scene.mk stage.robot) hlowered
  scene' := congrArg (Scene.mk start') hlowered

/-- **A stop signal only cuts a call short.** Against a robot that raises the signal in its `k`-th
call, a call on the evaluator does what it does against one that answers alike and leaves the
signal alone, or it is interrupted on the way, though not before the `k`-th call. -/
theorem stop_only_truncates {robot : Robot ρ} {robot' : Robot ρ'} {stage after : Stage ρ}
    {start' : ρ'} {k : Nat} {task : Task} {result : Except Error Unit} {trace : Trace}
    (hlowered : stage.board.isStopped stage.evaluator.signal = false)
    (twin : robot.Twin stage.robot robot' start' k)
    (h : stage.Returns robot task result trace after) (hk : k ≤ (Trace.calls trace).length) :
    ∃ result' trace' after', (stage.withRobot start').Returns robot' task result' trace' after' ∧
      Trace.calls trace' <+: Trace.calls trace ∧ k ≤ (Trace.calls trace').length ∧
      (result' = .error .interrupted ∨ result' = result ∧ Trace.calls trace' = Trace.calls trace ∧
        after'.evaluator = after.evaluator) := by
  obtain ⟨rounds, halted, hend, hresult, rfl, rfl⟩ := h.ends
  have htracks := task.tracks (Eval.stop_congruence twin stage.evaluator.limits rounds)
  have hstart := htracks.2 _ _ (Stage.toRun_alike hlowered)
  rw [hend] at hstart
  rcases hstart with hpair | ⟨_, last, events, ⟨mid, rfl, hlike, hraised⟩, hcut, -, hgoes⟩
  · -- the second run ends as the first does
    obtain ⟨halted', hend', hpair⟩ : ∃ halted', task.exec robot' stage.evaluator.limits rounds
        (stage.withRobot start').toRun = halted' ∧ Eval.Pairs _ halted halted' := ⟨_, rfl, hpair⟩
    obtain ⟨hlike, houtcome⟩ : Alike robot _ robot' _ (Stage.final halted) (Stage.final halted') ∧ _ :=
      Stage.final_pairs hpair
    refine ⟨result, _, _, Stage.returns_of_run hend' (houtcome.trans hresult) rfl rfl, ?_, ?_, ?_⟩
    · exact ⟨[], by rw [List.append_nil, hlike.calls]⟩
    · rw [hlike.calls]; exact hk
    · refine .inr ⟨rfl, hlike.calls, ?_⟩
      unfold Stage.ofRun
      rw [hlike.store, hlike.steps]; rfl
  · have hpath := Stage.reaches_of_lands hgoes
    refine ⟨.error .interrupted, _, _, Stage.returns_of_run hcut rfl rfl rfl, ?_, ?_, .inl rfl⟩
    · show Trace.calls (last.noting events).trace.reverse <+: _
      rw [Stage.calls_noting, hlike.calls]
      exact hpath.calls_prefix
    · show k ≤ (Trace.calls (last.noting events).trace.reverse).length
      rw [Stage.calls_noting, hlike.calls]
      rcases Nat.lt_or_ge (Trace.calls mid.trace.reverse).length k with hfew | hmany
      · -- with fewer calls the signal would still be lowered
        have hstill := twin.lowered _ hfew
        rw [← hlike.scene', hraised] at hstill
        cases hstill
      · exact hmany

namespace Scripted

/-- The robot, which raises the signal at another call or at none. -/
def stopping (q : Scripted) (stop : Option Nat) : Scripted := { q with stopAfter := stop }

/-- The chosen call decides over the signal and over nothing else. -/
theorem next_stopping (q : Scripted) (stop : Option Nat) (raised : Bool) (call : Call) :
    robot.next ⟨q.stopping stop, raised⟩ call =
      ⟨(robot.next ⟨q, false⟩ call).robot.stopping stop,
        raised || stop == some (q.calls + 1)⟩ := by
  cases call with
  | deed deed => cases deed <;> rfl
  | query query =>
    obtain ⟨fuel, take, wall, barrels, oppFB, oppLR, script, stopAfter, calls⟩ := q
    cases script <;> rfl

theorem calls_next (q : Scripted) (call : Call) :
    (robot.next ⟨q, false⟩ call).robot.calls = q.calls + 1 := by
  cases call with
  | deed deed => cases deed <;> rfl
  | query query =>
    obtain ⟨fuel, take, wall, barrels, oppFB, oppLR, script, stopAfter, calls⟩ := q
    cases script <;> rfl

theorem sense_stopping (q : Scripted) (stop : Option Nat) (raised : Bool) (query : Query) :
    (robot.sense query ⟨q.stopping stop, raised⟩).1 = (robot.sense query ⟨q, false⟩).1 := by
  obtain ⟨fuel, take, wall, barrels, oppFB, oppLR, script, stopAfter, calls⟩ := q
  cases script with
  | nil => cases query <;> rfl
  | cons value script => rfl

/-- After the same calls, robots that differ in the chosen call differ in nothing else. -/
theorem follow_stopping (start : Scripted) (calls : List Call) : ∃ q : Scripted,
    q.calls = start.calls + calls.length ∧ ∀ stop, ∃ raised,
      robot.follow ⟨start.stopping stop, false⟩ calls = ⟨q.stopping stop, raised⟩ ∧
      (raised = true → ∃ n, stop = some n ∧ n ≤ start.calls + calls.length) := by
  induction calls using List.reverseRecOn with
  | nil =>
    refine ⟨start, rfl, fun stop => ⟨false, rfl, fun hraised => ?_⟩⟩
    cases hraised
  | append_singleton calls call ih =>
    obtain ⟨q, hcalls, hq⟩ := ih
    have hlength : (calls ++ [call]).length = calls.length + 1 := by simp
    refine ⟨(robot.next ⟨q, false⟩ call).robot, ?_, fun stop => ?_⟩
    · rw [calls_next, hcalls, hlength, Nat.add_assoc]
    · obtain ⟨raised, hscene, hraised⟩ := hq stop
      refine ⟨raised || stop == some (q.calls + 1), ?_, fun hnow => ?_⟩
      · rw [Robot.follow_concat, hscene, next_stopping]
      · rw [hlength]
        rcases Bool.or_eq_true_iff.1 hnow with hbefore | hchosen
        · obtain ⟨n, hn, hle⟩ := hraised hbefore
          exact ⟨n, hn, by omega⟩
        · exact ⟨q.calls + 1, by simpa using hchosen, by omega⟩

/-- A scripted robot that raises the signal in its `k`-th call answers like one that never does. -/
theorem twin (start : Scripted) (k : Nat) :
    robot.Twin (start.stopping none) robot (start.stopping (some (start.calls + k))) k where
  same calls query := by
    obtain ⟨q, -, hq⟩ := follow_stopping start calls
    obtain ⟨raised, hnever, -⟩ := hq none
    obtain ⟨raised', hchosen, -⟩ := hq (some (start.calls + k))
    rw [hnever, hchosen, sense_stopping, sense_stopping]
  untouched calls := by
    obtain ⟨q, -, hq⟩ := follow_stopping start calls
    obtain ⟨raised, hscene, hraised⟩ := hq none
    rw [hscene]
    cases raised with
    | false => rfl
    | true =>
      obtain ⟨n, hn, -⟩ := hraised rfl
      cases hn
  lowered calls early := by
    obtain ⟨q, -, hq⟩ := follow_stopping start calls
    obtain ⟨raised, hscene, hraised⟩ := hq (some (start.calls + k))
    rw [hscene]
    cases raised with
    | false => rfl
    | true =>
      obtain ⟨n, hn, hle⟩ := hraised rfl
      have hn : start.calls + k = n := Option.some.inj hn
      omega

end Scripted

/-- The second of four calls raises the signal. -/
theorem stop_in_second_call :
    let task : Task :=
      .program ⟨[.assign "$a" (.sensor .fuelLeft), .action .move (some (.var "$a"))]⟩
    let stage : Stage Scripted := Stage.fresh {} { fuel := 3 }
    ∃ trace after, stage.Returns Scripted.robot task (.ok ()) trace after ∧
      Trace.calls trace = [.query .fuel, .deed .moveStep, .deed .moveStep, .deed .moveStep] ∧
      ∃ result' trace' after',
        (stage.withRobot ({ fuel := 3, stopAfter := some 2 } : Scripted)).Returns Scripted.robot task
          result' trace' after' ∧
        Trace.calls trace' <+: Trace.calls trace ∧ 2 ≤ (Trace.calls trace').length ∧
        (result' = .error .interrupted ∨ result' = .ok () ∧
          Trace.calls trace' = Trace.calls trace ∧ after'.evaluator = after.evaluator) := by
  intro task stage
  obtain ⟨trace, after, hfree, hcalls⟩ : ∃ trace after,
      stage.Returns Scripted.robot task (.ok ()) trace after ∧
      Trace.calls trace = [.query .fuel, .deed .moveStep, .deed .moveStep, .deed .moveStep] := by
    have hend : task.exec Scripted.robot ⟨none⟩ 0 stage.toRun = _ := rfl
    exact ⟨_, _, Stage.returns_of_run hend rfl rfl rfl, rfl⟩
  have htwin : Scripted.robot.Twin stage.robot Scripted.robot
      ({ fuel := 3, stopAfter := some 2 } : Scripted) 2 := Scripted.twin { fuel := 3 } 2
  have hk : 2 ≤ (Trace.calls trace).length := by rw [hcalls]; decide
  exact ⟨trace, after, hfree, hcalls, stop_only_truncates rfl htwin hfree hk⟩

end RobotScript
