import RobotScript.Answer
import RobotScript.Evaluator
import RobotScript.Form.Tree
import RobotScript.Reading
import RobotScript.Store.Request

/-!
# Sessions

A session is a list of requests to one evaluator with one robot. Trees are given as
script text or in their JSON form.

* `Operation` is what an evaluator can be told to do with a tree; `Stage.perform` does it.
* `Stage.answer` answers one request and gives what happened while it was answered.
-/

namespace RobotScript

/-- A tree, as script text or in its JSON form. -/
inductive Input
  | text (source : String)
  | form (json : String)

/-- What an evaluator can be told to do with a tree. -/
inductive Operation
  | execute (program : Program)
  | statement (statement : Statement)
  | block (block : Block)
  | expression (e : Expr)
  | condition (c : Condition)

inductive Request
  | execute (program : Input)
  | statement (json : String)
  | block (json : String)
  | expression (input : Input)
  | condition (input : Input)
  | stop
  | reset
  | store (request : Store.Request)

/-- The answer to a request, and what happened meanwhile. -/
structure Reply where
  result : Result
  trace : Trace

namespace Input

/-- The tree of an input. -/
def read {α : Type} (parse : String → Except Error α) (ofJson? : Nat → Json → Option α) :
    Input → Except Failure α
  | .text source => Failure.ofError (parse source)
  | .form json => Failure.ofForm (Form.ofText ofJson? json)

/-- The program of an input, and the event of having parsed it. -/
def program (input : Input) : Except Failure (Program × Trace) := do
  let program ← input.read Program.parse Program.ofJson?
  match input with
  | .text _ => return (program, [.event (.parsed program.statements.length)])
  | .form _ => return (program, [])

end Input

/-- Does an operation and gives its answer. -/
def Operation.exec {ρ : Type} (robot : Robot ρ) (limits : Limits) (rounds : Nat) :
    Operation → Eval ρ Answer
  | .execute program => do
    program.exec robot limits rounds
    return .done
  | .statement s => do
    s.exec robot limits rounds
    return .done
  | .block body => do
    Statement.execAll robot limits rounds body
    return .done
  | .expression e => return .number (← e.eval robot)
  | .condition c => return .truth (← c.eval robot)

namespace Stage

variable {ρ : Type} (robot : Robot ρ) (rounds : Nat)

/-- The failure a halted run is. -/
def failure : Halt → Failure
  | .error e => .error e
  | .overflow => .overflow
  | .unfinished => .unfinished

/-- Does a computation whose value is the answer. -/
def answerBy (stage : Stage ρ) (body : Eval ρ Answer) : Reply × Stage ρ :=
  match stage.run body with
  | (.ok answer, trace, stage) => (⟨.ok answer, trace⟩, stage)
  | (.error halt, trace, stage) => (⟨.error (failure halt), trace⟩, stage)

/-- **Does an operation**, and gives its answer and the stage after it. -/
def perform (stage : Stage ρ) (operation : Operation) : Reply × Stage ρ :=
  stage.answerBy (operation.exec robot stage.evaluator.limits rounds)

/-- Refuses a request, which changes nothing. -/
def refuse (stage : Stage ρ) (failure : Failure) : Reply × Stage ρ := (⟨.error failure, []⟩, stage)

/-- **The answer to a request**, and the stage after it. -/
def answer (stage : Stage ρ) : Request → Reply × Stage ρ
  | .execute input =>
    match input.program with
    | .ok (program, parsing) =>
      let (reply, stage) := stage.perform robot rounds (.execute program)
      ({ reply with trace := parsing ++ reply.trace }, stage)
    | .error failure => stage.refuse failure
  | .statement json =>
    match Form.ofText Statement.ofJson? json with
    | some statement => stage.perform robot rounds (.statement statement)
    | none => stage.refuse .undecodable
  | .block json =>
    match Form.ofText Block.ofJson? json with
    | some block => stage.perform robot rounds (.block block)
    | none => stage.refuse .undecodable
  | .expression input =>
    match input.read Expr.parse Expr.ofJson? with
    | .ok e => stage.perform robot rounds (.expression e)
    | .error failure => stage.refuse failure
  | .condition input =>
    match input.read Condition.parse Condition.ofJson? with
    | .ok c => stage.perform robot rounds (.condition c)
    | .error failure => stage.refuse failure
  | .stop =>
    (⟨.ok .done, []⟩, { stage with board := stage.board.stop stage.evaluator.stopSignal })
  | .reset =>
    (⟨.ok .done, []⟩, { stage with board := stage.board.reset stage.evaluator.stopSignal })
  | .store request =>
    let (result, store) := stage.evaluator.store.answer request
    (⟨result, []⟩, stage.withStore store)

end Stage

end RobotScript
