import RobotScript.Run
import RobotScript.Signal

/-!
# Evaluators

An evaluator keeps a store, limits, a stop signal and a step count from one run to the
next.

* `Stage` is an evaluator together with the signals and the robot it works with.
* `Stage.run` does a computation on a stage and gives its trace.
* `Program.run` runs a program once, with a new evaluator and no limits.
-/

namespace RobotScript

structure Evaluator where
  store : Store
  limits : Limits
  signal : Signal
  steps : UInt64

namespace Evaluator

/-- An evaluator with an empty store and a signal of its own. -/
def fresh (limits : Limits) (board : Switchboard) : Evaluator × Switchboard :=
  let (signal, board) := board.fresh
  (⟨.empty, limits, signal, 0⟩, board)

/-- The evaluator, stopped through another signal from now on. -/
def withSignal (evaluator : Evaluator) (signal : Signal) : Evaluator := { evaluator with signal }

/-- A handle that stops the evaluator. -/
def stopSignal (evaluator : Evaluator) : Signal := evaluator.signal.clone

end Evaluator

/-- An evaluator, the signals there are, and a robot. -/
structure Stage (ρ : Type) where
  evaluator : Evaluator
  board : Switchboard
  robot : ρ

namespace Stage

variable {ρ : Type}

/-- A new evaluator in front of a robot. -/
def fresh (limits : Limits) (robot : ρ) : Stage ρ :=
  let (evaluator, board) := Evaluator.fresh limits {}
  ⟨evaluator, board, robot⟩

/-- A new evaluator that is stopped through a signal made before it. -/
def sharing (limits : Limits) (robot : ρ) : Stage ρ :=
  let (signal, board) := ({} : Switchboard).fresh
  let (evaluator, board) := Evaluator.fresh limits board
  ⟨evaluator.withSignal signal.clone, board, robot⟩

/-- The stage with another store, as it is after variables were preset. -/
def withStore (stage : Stage ρ) (store : Store) : Stage ρ :=
  { stage with evaluator := { stage.evaluator with store } }

/-- The state in which a run on the stage begins. -/
def toRun (stage : Stage ρ) : Run ρ where
  store := stage.evaluator.store
  steps := stage.evaluator.steps
  scene := ⟨stage.robot, stage.board.isStopped stage.evaluator.signal⟩
  trace := []

/-- The stage after a run that ended in the given state. -/
def ofRun (stage : Stage ρ) (run : Run ρ) : Stage ρ where
  evaluator := { stage.evaluator with store := run.store, steps := run.steps }
  board := stage.board.put stage.evaluator.signal run.scene.raised
  robot := run.scene.robot

/-- **Does a computation on a stage**, and gives its outcome, its trace and the stage
after it. -/
def run {α : Type} (stage : Stage ρ) (body : Eval ρ α) : Except Halt α × Trace × Stage ρ :=
  match body stage.toRun with
  | .ok value run => (.ok value, run.trace.reverse, stage.ofRun run)
  | .error halt run => (.error halt, run.trace.reverse, stage.ofRun run)

end Stage

/-- **Runs a program** with a new evaluator and no limits. -/
def Program.run {ρ : Type} (robot : Robot ρ) (rounds : Nat) (program : Program) (start : ρ) :
    Except Halt Unit × Trace × Stage ρ :=
  (Stage.fresh {} start).run (program.exec robot {} rounds)

end RobotScript
