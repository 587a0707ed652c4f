import RobotScript.Tree
import RobotScript.Decimal

/-!
# The text of trees

Expressions and conditions are written as in a script, without blanks. Statements
and programs have a compact text for people: each statement of a block follows
`" + "`, and no semicolons are written.
-/

namespace RobotScript

def Expr.render : Expr → String
  | .number value => Decimal.ofInt value.toInt
  | .sensor word => Word.spelling word
  | .ranked word rank => Word.spelling word ++ "(" ++ rank.render ++ ")"
  | .var name => name
  | .binary op left right =>
    Word.spelling op ++ "(" ++ left.render ++ "," ++ right.render ++ ")"

def Condition.render : Condition → String
  | .compare op left right =>
    Word.spelling op ++ "(" ++ left.render ++ "," ++ right.render ++ ")"
  | .and left right => "and(" ++ left.render ++ "," ++ right.render ++ ")"
  | .or left right => "or(" ++ left.render ++ "," ++ right.render ++ ")"
  | .not inner => "not(" ++ inner.render ++ ")"

mutual

def Statement.render : Statement → String
  | .action word none => Word.spelling word
  | .action word (some count) => Word.spelling word ++ "(" ++ count.render ++ ")"
  | .loop body => "loop\x7b\n" ++ Statement.renderAll body ++ "\n\x7d"
  | .branch test body elifs otherwise =>
    "if(" ++ test.render ++ ")\x7b\n" ++ Statement.renderAll body ++ "\n\x7d" ++
      Statement.renderElifs elifs ++ Statement.renderElse otherwise
  | .whileLoop test body =>
    "while(" ++ test.render ++ ")\x7b\n" ++ Statement.renderAll body ++ "\n\x7d"
  | .assign name value => name ++ "=" ++ value.render

/-- Each statement after `" + "`. -/
def Statement.renderAll : List Statement → String
  | [] => ""
  | s :: rest => " + " ++ s.render ++ Statement.renderAll rest

def Statement.renderElifs : List (Condition × List Statement) → String
  | [] => ""
  | (test, body) :: rest =>
    " elif(" ++ test.render ++ ")\x7b\n" ++ Statement.renderAll body ++ "\n\x7d" ++
      Statement.renderElifs rest

def Statement.renderElse : Option (List Statement) → String
  | none => ""
  | some body => " else \x7b\n" ++ Statement.renderAll body ++ "\n\x7d"

end

def Block.render (block : Block) : String := "\x7b\n" ++ Statement.renderAll block ++ "\n\x7d"

def Program.render (program : Program) : String :=
  "(" ++ Statement.renderAll program.statements ++ ")"

end RobotScript
