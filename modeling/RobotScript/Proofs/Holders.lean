import RobotScript.Session
import RobotScript.Proofs.Truncation

/-!
# Robots in holders

A holder passes every call on to the robot in it. So nothing that an evaluator does with a robot
in holders can be told from what it does with the robot itself.

* `Robot.Shows`: what a robot does, seen through a view of its states, is what another one does.
* `Robot.stacked_shows`: so it is with a robot in holders, seen through them, and the robot itself.
* `Stage.serve_map`: then operations on an evaluator give the same answers, one after the other.
* `Robot.logged`: the robot, with a log of the calls made on it.
* `holders_change_nothing`: operations on a robot in holders are operations on the robot.
-/

namespace RobotScript

variable {ρ ρ' ρ'' : Type}

def Scene.map (view : ρ → ρ') (scene : Scene ρ) : Scene ρ' := ⟨view scene.robot, scene.raised⟩

def Run.map (view : ρ → ρ') (run : Run ρ) : Run ρ' :=
  ⟨run.store, run.steps, run.scene.map view, run.trace⟩

def Stage.map (view : ρ → ρ') (stage : Stage ρ) : Stage ρ' :=
  ⟨stage.evaluator, stage.board, view stage.robot⟩

/-- **Seen through the view, the robot does what the other one does.** -/
structure Robot.Shows (robot : Robot ρ) (robot' : Robot ρ') (view : ρ → ρ') : Prop where
  act (deed : Deed) (scene : Scene ρ) :
    robot'.act deed (scene.map view) = (robot.act deed scene).map view
  sense (query : Query) (scene : Scene ρ) :
    robot'.sense query (scene.map view) =
      ((robot.sense query scene).1, (robot.sense query scene).2.map view)

theorem Robot.Shows.trans {robot : Robot ρ} {robot' : Robot ρ'} {robot'' : Robot ρ''}
    {view : ρ → ρ'} {view' : ρ' → ρ''} (h : robot.Shows robot' view)
    (h' : robot'.Shows robot'' view') : robot.Shows robot'' (view' ∘ view) where
  act deed scene := by
    have hact := h'.act deed (scene.map view)
    rw [h.act] at hact
    exact hact
  sense query scene := by
    have hsense := h'.sense query (scene.map view)
    rw [h.sense] at hsense
    exact hsense

/-- A holder passes on each call as what it is. -/
theorem Robot.held_shows (robot : Robot ρ) (holder : Holder) :
    (robot.held holder).Shows robot Held.inner where
  act deed scene := by cases deed <;> rfl
  sense query scene := by cases query <;> rfl

/-- **So does any number of holders.** -/
theorem Robot.stacked_shows (robot : Robot ρ) (holders : List Holder) :
    (robot.stacked holders).Shows robot (Stacked.unwrap holders) := by
  induction holders with
  | nil => exact ⟨fun _ _ => rfl, fun _ _ => rfl⟩
  | cons holder rest ih => exact ((robot.stacked rest).held_shows holder).trans ih

namespace Eval

variable {robot : Robot ρ} {robot' : Robot ρ'} {view : ρ → ρ'}

/-- The second run is the first one, seen through the view. -/
def viewing (view : ρ → ρ') : Cutoff ρ ρ' :=
  .lockstep (fun run run' => run' = run.map view) (by rintro run _ rfl; rfl)
    (by rintro run _ event rfl; rfl)

theorem viewing_raised {run : Run ρ} {run' : Run ρ'} (h : (viewing view).Like run run') :
    run'.scene.raised = run.scene.raised := by
  obtain rfl := h
  rfl

theorem viewing_perform (h : robot.Shows robot' view) (limits : Limits) (deed : Deed) :
    Tracks (viewing view) robot limits (perform robot deed) (perform robot' deed) := by
  refine ⟨(walks_congruence robot limits 0).perform deed, fun run _ like => .inl ?_⟩
  obtain rfl := like
  have hscene : robot'.act deed (run.map view).scene = _ := h.act deed run.scene
  have hperform : perform robot' deed (run.map view) =
      .ok () ⟨run.store, run.steps, robot'.act deed (run.map view).scene,
        .call (.deed deed) (robot'.act deed (run.map view).scene).raised :: run.trace⟩ := rfl
  rw [hperform, hscene]
  exact .ok rfl

theorem viewing_ask (h : robot.Shows robot' view) (limits : Limits) (query : Query) :
    Tracks (viewing view) robot limits (ask robot query) (ask robot' query) := by
  refine ⟨(walks_congruence robot limits 0).ask query, fun run _ like => .inl ?_⟩
  obtain rfl := like
  have hscene : robot'.sense query (run.map view).scene = _ := h.sense query run.scene
  have hask : ask robot' query (run.map view) =
      .ok (robot'.sense query (run.map view).scene).1 ⟨run.store, run.steps,
        (robot'.sense query (run.map view).scene).2,
        .call (.query query) (robot'.sense query (run.map view).scene).2.raised :: run.trace⟩ := rfl
  rw [hask, hscene]
  exact .ok rfl

/-- **Runs against the two robots go on side by side.** -/
theorem viewing_congruence (h : robot.Shows robot' view) (limits : Limits) (rounds : Nat) :
    LoopCongruence (fun _ m m' => Tracks (viewing view) robot limits m m') robot robot' limits limits
      rounds rounds := by
  have walks := walks_congruence robot limits rounds
  exact {
    pure := tracks_pure
    bind := Tracks.bind
    divisionByZero := tracks_fail
    report := tracks_report
    perform := viewing_perform h limits
    ask := viewing_ask h limits
    readVar := fun name => ⟨walks.readVar name, fun _ _ like => .inl (by
      obtain rfl := like; exact .ok rfl)⟩
    assign := fun name value => ⟨walks.assign name value, fun _ _ like => .inl (by
      obtain rfl := like; exact .ok rfl)⟩
    checkStop := tracks_checkStop_alike viewing_raised
    checkpoint := tracks_checkpoint_alike viewing_raised fun like => by
      obtain rfl := like; rfl
    whileHolds := fun htest hbody => htest.whileHolds hbody rounds }

end Eval

/-- What holds between the evaluations of trees holds between operations on them. -/
theorem Operation.tracks {robot : Robot ρ} {robot' : Robot ρ'} {limits limits' : Limits}
    {rounds rounds' : Nat} {cut : Cutoff ρ ρ'}
    (h : Eval.LoopCongruence (fun _ m m' => Eval.Tracks cut robot limits m m') robot robot' limits
      limits' rounds rounds') (operation : Operation) :
    Eval.Tracks cut robot limits (operation.exec robot limits rounds)
      (operation.exec robot' limits' rounds') := by
  cases operation with
  | execute p => exact ((Task.program p).tracks h).bind fun _ => Eval.tracks_pure _
  | statement s => exact ((Task.statement s).tracks h).bind fun _ => Eval.tracks_pure _
  | block body => exact ((Task.block body).tracks h).bind fun _ => Eval.tracks_pure _
  | expression e => exact (h.value.expr e).bind fun _ => Eval.tracks_pure _
  | condition c => exact (h.value.condition c).bind fun _ => Eval.tracks_pure _

namespace Stage

/-- **Does operations one after the other**, and gives the answer to each and the stage after it. -/
def serve (robot : Robot ρ) (rounds : Nat) : Stage ρ → List Operation → List (Reply × Stage ρ)
  | _, [] => []
  | stage, operation :: rest =>
    let done := stage.perform robot rounds operation
    done :: serve robot rounds done.2 rest

/-- **Operations come to an end**, each with a result, whatever rounds loops are allowed beyond some
number. -/
def Completes (robot : Robot ρ) (stage : Stage ρ) (operations : List Operation)
    (done : List (Reply × Stage ρ)) : Prop :=
  (∀ d ∈ done, d.1.result ≠ .error .overflow ∧ d.1.result ≠ .error .unfinished) ∧
    ∃ enough, ∀ rounds, enough ≤ rounds → stage.serve robot rounds operations = done

variable {robot : Robot ρ} {robot' : Robot ρ'} {view : ρ → ρ'}

theorem perform_ok {stage : Stage ρ} {rounds : Nat} {operation : Operation} {answer : Answer}
    {last : Run ρ}
    (h : operation.exec robot stage.evaluator.limits rounds stage.toRun = .ok answer last) :
    stage.perform robot rounds operation = (⟨.ok answer, last.trace.reverse⟩, stage.ofRun last) := by
  unfold perform answerBy
  rw [run_ok h]

theorem perform_error {stage : Stage ρ} {rounds : Nat} {operation : Operation} {halt : Halt}
    {last : Run ρ}
    (h : operation.exec robot stage.evaluator.limits rounds stage.toRun = .error halt last) :
    stage.perform robot rounds operation =
      (⟨.error (failure halt), last.trace.reverse⟩, stage.ofRun last) := by
  unfold perform answerBy
  rw [run_error h]

/-- **An operation gives the same answer** with a robot that is seen through a view. -/
theorem perform_map (h : robot.Shows robot' view) (rounds : Nat) (stage : Stage ρ)
    (operation : Operation) : (stage.map view).perform robot' rounds operation =
      (stage.perform robot rounds operation).map id (Stage.map view) := by
  have htracks := operation.tracks (Eval.viewing_congruence h stage.evaluator.limits rounds)
  have hpairs : Eval.Pairs (fun run run' => run' = run.map view)
      (operation.exec robot stage.evaluator.limits rounds stage.toRun)
      (operation.exec robot' (stage.map view).evaluator.limits rounds (stage.map view).toRun) :=
    htracks.pairs (fun _ _ => id) rfl
  generalize hresult : operation.exec robot stage.evaluator.limits rounds stage.toRun = result,
    hresult' : operation.exec robot' (stage.map view).evaluator.limits rounds
      (stage.map view).toRun = result' at hpairs
  cases hpairs with
  | ok like =>
    rw [perform_ok hresult, perform_ok hresult', like]
    rfl
  | error like =>
    rw [perform_error hresult, perform_error hresult', like]
    rfl

theorem serve_map (h : robot.Shows robot' view) (rounds : Nat) (stage : Stage ρ)
    (operations : List Operation) : (stage.map view).serve robot' rounds operations =
      (stage.serve robot rounds operations).map (Prod.map id (Stage.map view)) := by
  induction operations generalizing stage with
  | nil => rfl
  | cons operation rest ih =>
    rw [serve, serve, List.map_cons, perform_map h]
    exact congrArg _ (ih _)

end Stage

/-- A robot with a log of the calls made on it, the earliest first. -/
structure Logged (ρ : Type) where
  robot : ρ
  calls : List Call

/-- **The robot that logs each call** and then does what it is told. -/
def Robot.logged (robot : Robot ρ) : Robot (Logged ρ) where
  act deed scene :=
    let after := robot.act deed (scene.map Logged.robot)
    ⟨⟨after.robot, scene.robot.calls ++ [.deed deed]⟩, after.raised⟩
  sense query scene :=
    let (reading, after) := robot.sense query (scene.map Logged.robot)
    (reading, ⟨⟨after.robot, scene.robot.calls ++ [.query query]⟩, after.raised⟩)

theorem Robot.logged_shows (robot : Robot ρ) : robot.logged.Shows robot Logged.robot :=
  ⟨fun _ _ => rfl, fun _ _ => rfl⟩

/-- The log has grown by the calls in the trace. -/
def Run.Logs (log : List Call) (run : Run (Logged ρ)) : Prop :=
  run.scene.robot.calls = log ++ Trace.calls run.trace.reverse

theorem Run.Step.logs {robot : Robot ρ} {limits : Limits} {run after : Run (Logged ρ)}
    {log : List Call} (hstep : Run.Step robot.logged limits run after) (h : run.Logs log) :
    after.Logs log := by
  unfold Run.Logs at h ⊢
  cases hstep with
  | report event =>
    show run.scene.robot.calls = log ++ Trace.calls (run.noting [event]).trace.reverse
    rw [Stage.calls_noting, h]
  | perform deed =>
    show run.scene.robot.calls ++ [.deed deed] = _
    rw [Run.Alike.calls_call, h, List.append_assoc]
  | ask query =>
    show run.scene.robot.calls ++ [.query query] = _
    rw [Run.Alike.calls_call, h, List.append_assoc]
  | read name => exact h
  | assign name value => exact h
  | pass lowered allowed =>
    show run.scene.robot.calls = log ++ Trace.calls run.counting.trace.reverse
    rw [Stage.calls_counting, h]

theorem Run.Reaches.logs {robot : Robot ρ} {limits : Limits} {run after : Run (Logged ρ)}
    {log : List Call} (hreaches : Run.Reaches robot.logged limits run after) (h : run.Logs log) :
    after.Logs log := by
  induction hreaches with
  | refl => exact h
  | tail _ hstep ih => exact hstep.logs ih

namespace Stage

variable (robot : Robot ρ) (rounds : Nat)

/-- The stage with a robot that logs, and what is in its log. -/
def logging (log : List Call) (stage : Stage ρ) : Stage (Logged ρ) := stage.map fun r => ⟨r, log⟩

/-- An operation adds to the log the calls that are in its trace. -/
theorem calls_perform (stage : Stage (Logged ρ)) (operation : Operation) :
    (stage.perform robot.logged rounds operation).2.robot.calls =
      stage.robot.calls ++ (stage.perform robot.logged rounds operation).1.trace.calls := by
  have hlogs : stage.toRun.Logs stage.robot.calls := (List.append_nil _).symm
  have htracks := operation.tracks
    (Eval.viewing_congruence robot.logged_shows stage.evaluator.limits rounds)
  have hlands := htracks.1 stage.toRun
  cases hresult : operation.exec robot.logged stage.evaluator.limits rounds stage.toRun with
  | ok answer last =>
    rw [hresult] at hlands
    rw [perform_ok hresult]
    exact Run.Reaches.logs hlands hlogs
  | error halt last =>
    rw [hresult] at hlands
    rw [perform_error hresult]
    exact Run.Reaches.logs hlands.1 hlogs

theorem perform_logging (log : List Call) (stage : Stage ρ) (operation : Operation) :
    (stage.logging log).perform robot.logged rounds operation =
      (stage.perform robot rounds operation).map id
        (logging (log ++ (stage.perform robot rounds operation).1.trace.calls)) := by
  have hview := perform_map robot.logged_shows rounds (stage.logging log) operation
  have hcalls := calls_perform robot rounds (stage.logging log) operation
  generalize (stage.logging log).perform robot.logged rounds operation = done at hview hcalls
  obtain ⟨reply, after⟩ := done
  have hdone : stage.perform robot rounds operation = (reply, after.map Logged.robot) := hview
  have hlog : after.robot.calls = log ++ reply.trace.calls := hcalls
  rw [hdone]
  show (reply, after) = (reply, logging (log ++ reply.trace.calls) (after.map Logged.robot))
  rw [← hlog]
  rfl

/-- What operations come to with a robot that logs: each of them adds its calls to the log. -/
def logAll (log : List Call) : List (Reply × Stage ρ) → List (Reply × Stage (Logged ρ))
  | [] => []
  | done :: rest =>
    let more := log ++ done.1.trace.calls
    (done.1, done.2.logging more) :: logAll more rest

theorem serve_logging (log : List Call) (stage : Stage ρ) (operations : List Operation) :
    (stage.logging log).serve robot.logged rounds operations =
      logAll log (stage.serve robot rounds operations) := by
  induction operations generalizing log stage with
  | nil => rfl
  | cons operation rest ih =>
    rw [serve, serve, perform_logging, logAll]
    exact congrArg _ (ih _ _)

end Stage

theorem Stacked.wrap_unwrap (holders : List Holder) (held : Stacked holders ρ) :
    wrap holders (unwrap holders held) = held := by
  induction holders with
  | nil => rfl
  | cons holder rest ih => exact congrArg Held.mk (ih held.inner)

theorem Stacked.unwrap_wrap (holders : List Holder) (robot : ρ) :
    unwrap holders (wrap holders robot) = robot := by
  induction holders with
  | nil => rfl
  | cons holder rest ih => exact ih

namespace Stage

/-- The stage with its robot in holders. -/
def within (holders : List Holder) (stage : Stage ρ) : Stage (Stacked holders ρ) :=
  stage.map (Stacked.wrap holders)

/-- The stage with the robot that is in the holders. -/
def without (holders : List Holder) (stage : Stage (Stacked holders ρ)) : Stage ρ :=
  stage.map (Stacked.unwrap holders)

theorem without_within (holders : List Holder) (stage : Stage ρ) :
    (stage.within holders).without holders = stage :=
  congrArg (Stage.mk stage.evaluator stage.board) (Stacked.unwrap_wrap holders stage.robot)

theorem within_without (holders : List Holder) (stage : Stage (Stacked holders ρ)) :
    (stage.without holders).within holders = stage :=
  congrArg (Stage.mk stage.evaluator stage.board) (Stacked.wrap_unwrap holders stage.robot)

section

variable {robot : Robot ρ} {stage : Stage ρ} {operations : List Operation} {rounds : Nat}
  (holders : List Holder)

theorem serve_without : ((stage.within holders).serve (robot.stacked holders) rounds operations).map
    (Prod.map id (without holders)) = stage.serve robot rounds operations := by
  have hserve := serve_map (robot.stacked_shows holders) rounds (stage.within holders) operations
  rw [show (stage.within holders).map (Stacked.unwrap holders) = stage from
    without_within holders stage] at hserve
  exact hserve.symm

theorem serve_within : (stage.within holders).serve (robot.stacked holders) rounds operations =
    (stage.serve robot rounds operations).map (Prod.map id (within holders)) := by
  have hserve : _ = stage.serve robot rounds operations := serve_without holders
  rw [← hserve, List.map_map, Prod.map_comp_map]
  have hid : within holders ∘ without holders = (id : Stage (Stacked holders ρ) → _) :=
    funext (within_without holders)
  rw [hid, Function.comp_id, Prod.map_id, List.map_id]

theorem Completes.within {done : List (Reply × Stage ρ)} (h : stage.Completes robot operations done) :
    (stage.within holders).Completes (robot.stacked holders) operations
      (done.map (Prod.map id (Stage.within holders))) := by
  obtain ⟨hfinished, enough, hserve⟩ := h
  constructor
  · intro d hd
    obtain ⟨d, hmem, rfl⟩ := List.mem_map.1 hd
    exact hfinished d hmem
  · refine ⟨enough, fun rounds hrounds => ?_⟩
    rw [serve_within holders, hserve rounds hrounds]

theorem Completes.without {holders : List Holder} {done : List (Reply × Stage (Stacked holders ρ))}
    (h : (stage.within holders).Completes (robot.stacked holders) operations done) :
    stage.Completes robot operations (done.map (Prod.map id (Stage.without holders))) := by
  obtain ⟨hfinished, enough, hserve⟩ := h
  constructor
  · intro d hd
    obtain ⟨d, hmem, rfl⟩ := List.mem_map.1 hd
    exact hfinished d hmem
  · refine ⟨enough, fun rounds hrounds => ?_⟩
    rw [← serve_without holders, hserve rounds hrounds]

end

end Stage

/-- **Operations cannot tell the robot in the holders from the robot itself.** -/
structure Robot.Transparent (robot : Robot ρ) (holders : List Holder) (stage : Stage ρ)
    (operations : List Operation) : Prop where
  /-- Operation by operation the answers and traces are the same, and so are the store, the counter,
  the signals and the state of the robot. -/
  same (rounds : Nat) :
    ((stage.within holders).serve (robot.stacked holders) rounds operations).map
      (Prod.map id (Stage.without holders)) = stage.serve robot rounds operations
  /-- The calls that come to the robot in the holders are those of the traces without holders. -/
  calls (rounds : Nat) (log : List Call) :
    (((stage.logging log).within holders).serve (robot.logged.stacked holders) rounds
      operations).map (Prod.map id (Stage.without holders)) =
        Stage.logAll log (stage.serve robot rounds operations)
  /-- The operations come to an end with holders if they do without. -/
  ends_within {done : List (Reply × Stage ρ)} (completes : stage.Completes robot operations done) :
    (stage.within holders).Completes (robot.stacked holders) operations
      (done.map (Prod.map id (Stage.within holders)))
  /-- They do without holders if they do with them. -/
  ends_without {done : List (Reply × Stage (Stacked holders ρ))}
    (completes : (stage.within holders).Completes (robot.stacked holders) operations done) :
    stage.Completes robot operations (done.map (Prod.map id (Stage.without holders)))

/-- **Holders change nothing.** Whatever the robot, its holders and the operations on it, what is
done through the holders is what is done without them. -/
theorem holders_change_nothing (robot : Robot ρ) (holders : List Holder) (stage : Stage ρ)
    (operations : List Operation) : robot.Transparent holders stage operations where
  same _ := Stage.serve_without holders
  calls rounds log := by
    rw [Stage.serve_without, Stage.serve_logging]
  ends_within completes := completes.within holders
  ends_without completes := completes.without

end RobotScript
