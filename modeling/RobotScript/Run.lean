import RobotScript.Limits
import RobotScript.Store
import RobotScript.Trace
import RobotScript.Tree.Render

/-!
# Running programs

Trees are carried out against a robot and a store, step by step in the order of the
text, with these exceptions: a comparison evaluates its right side first, and the `else`
of an `if` is used only if the `if` has no `elif`.

* `Expr.eval` and `Condition.eval` give values; they stop only at a division by zero.
* `Statement.exec` carries out a statement. Before each statement the stop signal is
  looked at, then the step limit, and only then is the statement counted.
* `Program.exec` carries out a program and reports how it ended.

The counter of statements has 64 bits and is not wrapped around. A run that would count
past its end breaks off with an `overflow`, which is neither a value nor an error: such a
run gives no result.

A loop need not end, so every loop is allowed a number of rounds; a run in which a loop
uses them up is `unfinished`. All other ends of a run do not depend on that number.

During a run the stop signal changes in calls on the robot and nowhere else. A signal that
is raised or lowered from outside changes between two runs; one that another thread raises
while a run is under way is not described here.
-/

namespace RobotScript

/-- Why a run stops before its end. -/
inductive Halt
  | error (error : Error)
  | overflow
  | unfinished
deriving DecidableEq

/-- The state of a run; the trace has the latest mark first. -/
structure Run (ρ : Type) where
  store : Store
  steps : UInt64
  scene : Scene ρ
  trace : Trace

/-- Computations on the state of a run. Halting keeps the state. -/
abbrev Eval (ρ : Type) := EStateM Halt (Run ρ)

namespace Eval

variable {ρ : Type}

def fail {α : Type} (error : Error) : Eval ρ α := throw (.error error)

def mark (m : Mark) : Eval ρ Unit := modify fun run => { run with trace := m :: run.trace }

def report (event : Event) : Eval ρ Unit := mark (.event event)

/-- Has the robot perform a deed. -/
def perform (robot : Robot ρ) (deed : Deed) : Eval ρ Unit := modify fun run =>
  let scene := robot.act deed run.scene
  { run with scene, trace := .call (.deed deed) scene.raised :: run.trace }

/-- Asks the robot. -/
def ask (robot : Robot ρ) (query : Query) : Eval ρ Int32 := modifyGet fun run =>
  let (reading, scene) := robot.sense query run.scene
  (reading, { run with scene, trace := .call (.query query) scene.raised :: run.trace })

/-- The value of a variable. -/
def readVar (name : String) : Eval ρ Int32 := modifyGet fun run =>
  let (value, store) := run.store.read name
  (value, { run with store })

/-- Halts if the stop signal is raised. -/
def checkStop : Eval ρ Unit := do
  let run ← get
  if run.scene.raised then
    report (.stopObserved run.steps)
    fail .interrupted

/-- Halts if a limit is reached. -/
def checkLimit (limits : Limits) : Eval ρ Unit := do
  match limits.maxSteps with
  | some limit => if limit ≤ (← get).steps then fail (.limitExceeded limit)
  | none => return

/-- The largest number that the counter holds. -/
def maxCount : UInt64 := 18446744073709551615

/-- Counts a statement, if the counter is not at its end. -/
def count : Eval ρ Unit := do
  if (← get).steps = maxCount then
    throw .overflow
  else
    modify fun run => { run with steps := run.steps + 1, trace := .passed :: run.trace }

/-- What comes before every statement: it is counted unless the run halts here. -/
def checkpoint (limits : Limits) : Eval ρ Unit := do
  checkStop
  checkLimit limits
  count

/-- Ranks above this one are replaced by zero. -/
def maxRank : Int32 := 13

/-- The rank that is used for a given one. -/
def usedRank (word : Sensor) (rank : Int32) : Eval ρ Int32 := do
  if maxRank < rank then
    report (.rankReplaced word rank)
    return 0
  else
    return rank

/-- The reading of a sensor. -/
def sense (robot : Robot ρ) (word : Sensor) (rank : Int32) : Eval ρ Int32 := do
  ask robot (word.query (← usedRank word rank))

/-- Does something a number of times. -/
def times (body : Eval ρ Unit) : Nat → Eval ρ Unit
  | 0 => return
  | n + 1 => do
    body
    times body n

/-- Does something for as long as the test holds, which must be less than `rounds`
times. -/
def whileHolds (test : Eval ρ Bool) (body : Eval ρ Unit) : (rounds : Nat) → Eval ρ Unit
  | 0 => throw .unfinished
  | rounds + 1 => do
    if ← test then
      body
      whileHolds test body rounds
    else
      return

/-- Does something and reports how it ended, if it gave a result. -/
def closing (body : Eval ρ Unit) : Eval ρ Unit := fun run =>
  match body run with
  | .ok () run => report (.finished run.steps) run
  | .error (.error e) run => (do report (.aborted run.steps e); fail e) run
  | .error .overflow run => .error .overflow run
  | .error .unfinished run => .error .unfinished run

/-- Carries out an action. Moves and waits are repeated, and the stop signal is looked
at before each; other actions are done once whatever their count. -/
def act (robot : Robot ρ) (action : Action) (repeats : Int32) : Eval ρ Unit := do
  report (.acting action repeats)
  if action.takesCount then
    times (do checkStop; perform robot action.deed) repeats.toInt.toNat
  else
    perform robot action.deed

end Eval

/-- Arithmetic modulo 2^32; division goes toward zero, and has no value by zero. -/
def ArithOp.apply (left right : Int32) : ArithOp → Option Int32
  | .add => some (left + right)
  | .sub => some (left - right)
  | .mul => some (left * right)
  | .div => if right = 0 then none else some (left / right)

def Relop.holds (left right : Int32) : Relop → Bool
  | .lt => left < right
  | .gt => right < left
  | .eq => left == right

variable {ρ : Type} (robot : Robot ρ)

/-- **The value of an expression.** -/
def Expr.eval : Expr → Eval ρ Int32
  | .number value => return value
  | .sensor word => Eval.sense robot word 0
  | .ranked word rank => do Eval.sense robot word (← rank.eval)
  | .var name => Eval.readVar name
  | .binary op left right => do
    let l ← left.eval
    let r ← right.eval
    match op.apply l r with
    | some value => return value
    | none => Eval.fail (.divisionByZero (Expr.binary op left right).render)

/-- **The value of a condition.** Both sides are always evaluated. -/
def Condition.eval : Condition → Eval ρ Bool
  | .compare op left right => do
    let r ← right.eval robot
    let l ← left.eval robot
    return op.holds l r
  | .and left right => do
    let l ← left.eval
    let r ← right.eval
    return l && r
  | .or left right => do
    let l ← left.eval
    let r ← right.eval
    return l || r
  | .not inner => return !(← inner.eval)

/-- How often an action is to be done: once if there is no count. -/
def Action.repeats : Option Expr → Eval ρ Int32
  | none => return 1
  | some count => count.eval robot

variable (limits : Limits) (rounds : Nat)

mutual

/-- **Carries out a statement.** -/
def Statement.exec : Statement → Eval ρ Unit
  | .action word count => do
    Eval.checkpoint limits
    Eval.act robot word (← Action.repeats robot count)
  | .loop body => do
    Eval.checkpoint limits
    Eval.whileHolds (return true) (Statement.execAll body) rounds
  | .branch test body elifs otherwise => do
    Eval.checkpoint limits
    if ← test.eval robot then
      Statement.execAll body
    else if elifs.isEmpty then
      Statement.execElse otherwise
    else
      Statement.execElifs elifs
  | .whileLoop test body => do
    Eval.checkpoint limits
    Eval.whileHolds (test.eval robot) (Statement.execAll body) rounds
  | .assign name value => do
    Eval.checkpoint limits
    let v ← value.eval robot
    Eval.report (.assigned name v)
    modify fun run => { run with store := run.store.set name v }

/-- Carries out statements in order. -/
def Statement.execAll : List Statement → Eval ρ Unit
  | [] => return
  | s :: rest => do
    s.exec
    Statement.execAll rest

/-- Carries out the block of the first branch whose condition holds, if there is one. -/
def Statement.execElifs : List (Condition × List Statement) → Eval ρ Unit
  | [] => return
  | (test, body) :: rest => do
    if ← test.eval robot then
      Statement.execAll body
    else
      Statement.execElifs rest

def Statement.execElse : Option (List Statement) → Eval ρ Unit
  | none => return
  | some body => Statement.execAll body

end

/-- **Carries out a program**, and reports its beginning and its end. -/
def Program.exec (program : Program) : Eval ρ Unit := do
  Eval.report (.executing program.statements.length)
  Eval.closing (Statement.execAll robot limits rounds program.statements)

end RobotScript
