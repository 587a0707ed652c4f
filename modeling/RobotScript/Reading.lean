import RobotScript.Token.Scan
import RobotScript.Tree.Render
import RobotScript.Parser

/-!
# Trees from text

A text is scanned, and its tokens are read up to the end.
-/

namespace RobotScript

/-- The version of the language that is read. -/
def version : String := "0.1.0"

/-- A parser over the tokens of a text. -/
def Parser.ofText (text : String) : Parser := .ofTokens (Token.scan text)

def Program.parse (text : String) : Except Error Program := (Parser.ofText text).program.1

def Expr.parse (text : String) : Except Error Expr := (Parser.ofText text).expression.1

def Condition.parse (text : String) : Except Error Condition :=
  (Parser.ofText text).condition.1

/-- Whether reading the text of an expression gives the expression back. -/
def Expr.reparses (e : Expr) : Bool :=
  match Expr.parse e.render with
  | .ok e' => e' == e
  | .error _ => false

/-- Whether reading the text of a condition gives the condition back. -/
def Condition.reparses (c : Condition) : Bool :=
  match Condition.parse c.render with
  | .ok c' => c' == c
  | .error _ => false

end RobotScript
