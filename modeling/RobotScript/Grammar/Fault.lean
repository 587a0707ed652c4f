import RobotScript.Word

/-!
# Why reading stopped

A fault names what was expected where a token list stops following the grammar.
`Fault.message` is the one place where faults are put into words.
-/

namespace RobotScript

/-- The constructs whose parentheses and commas are asked for. -/
inductive Place
  | action
  | sensor
  | ifStatement
  | elifStatement
  | whileStatement
  | relop
  | combinator (word : Combinator)
  | condition
  | expression
deriving DecidableEq

def Place.name : Place → String
  | .action => "action"
  | .sensor => "sensor"
  | .ifStatement => "if statement"
  | .elifStatement => "elif statement"
  | .whileStatement => "while statement"
  | .relop => "relop condition"
  | .combinator word => Word.spelling word ++ " condition"
  | .condition => "condition"
  | .expression => "expression"

/-- What was expected, or why no more may follow. -/
inductive Fault
  | notStatement
  | notAction
  | notLoop
  | notVariable
  | notCondition
  | notExpression
  | notSensor
  | notInteger
  | noIf
  | noElif
  | noElse
  | noWhile
  | noOpen (place : Place)
  | noClose (place : Place)
  | noComma (place : Place)
  | noSemicolon
  | noAssign
  | noAssignEnd
  | noBlockOpen
  | noBlockClose
  | afterExpression
  | afterCondition
  | tooDeep
deriving DecidableEq

def Fault.message : Fault → String
  | .notStatement => "Not a valid statement"
  | .notAction => "Not a valid action"
  | .notLoop => "not a valid loop"
  | .notVariable => "Not a valid variable name"
  | .notCondition => "Not a valid conditional"
  | .notExpression => "not a valid expression"
  | .notSensor => "Not a valid sensor"
  | .notInteger => "not a valid integer"
  | .noIf => "Missing if keyword"
  | .noElif => "Missing elif keyword"
  | .noElse => "Missing else keyword"
  | .noWhile => "Missing while keyword"
  | .noOpen place => "Missing ( in " ++ place.name
  | .noClose place => "Missing ) in " ++ place.name
  | .noComma .expression => "Missing comma in expression"
  | .noComma place => "Missing a comma in " ++ place.name
  | .noSemicolon => "Missing semicolon"
  | .noAssign => "Missing = in assignment"
  | .noAssignEnd => "Missing ; in assignment"
  | .noBlockOpen => "Missing \x7b for block"
  | .noBlockClose => "Missing \x7d for block"
  | .afterExpression => "Unexpected tokens after expression"
  | .afterCondition => "Unexpected tokens after condition"
  | .tooDeep => "Nesting too deep"

end RobotScript
