import RobotScript.Word

/-!
# Script trees

The trees a script stands for: integer expressions, conditions, statements and
whole programs. They need not come from text: names are arbitrary strings, any
action may carry a count, any sensor a rank, and a block may be empty.
-/

namespace RobotScript

/-- Integer expressions. -/
inductive Expr
  | number (value : Int32)
  | sensor (word : Sensor)
  | ranked (word : Sensor) (rank : Expr)
  | var (name : String)
  | binary (op : ArithOp) (left right : Expr)
deriving DecidableEq

inductive Condition
  | compare (op : Relop) (left right : Expr)
  | and (left right : Condition)
  | or (left right : Condition)
  | not (inner : Condition)
deriving DecidableEq

/-- Statements. The blocks of an `if` are the first one, one per `elif`, and that
of the `else`. -/
inductive Statement
  | action (word : Action) (count : Option Expr)
  | loop (body : List Statement)
  | branch (test : Condition) (body : List Statement)
      (elifs : List (Condition × List Statement)) (otherwise : Option (List Statement))
  | whileLoop (test : Condition) (body : List Statement)
  | assign (name : String) (value : Expr)

abbrev Block := List Statement

/-- A condition with the block that runs if it is the first to hold. -/
abbrev Elif := Condition × Block

structure Program where
  statements : List Statement

/-- The combinator at the root of a condition, if there is one. -/
def Condition.combinator? : Condition → Option Combinator
  | .compare .. => none
  | .and .. => some .and
  | .or .. => some .or
  | .not _ => some .not

end RobotScript
