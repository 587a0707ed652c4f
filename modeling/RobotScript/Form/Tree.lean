import RobotScript.Tree
import RobotScript.Form

/-!
# The JSON form of trees

A tree is an object whose one key names the kind of node. `toJson` writes it and
`ofJson?` reads it, with the number of levels that may still be opened.
-/

namespace RobotScript

open Form

def Expr.toJson : Expr → Json
  | .number value => tagged "Number" (ofInt32 value)
  | .sensor word => tagged "Sensor" (.object [("sensor", ofWord word), ("rank", .null)])
  | .ranked word rank =>
    tagged "Sensor" (.object [("sensor", ofWord word), ("rank", rank.toJson)])
  | .var name => tagged "Variable" (.string name)
  | .binary op left right =>
    tagged "Binary"
      (.object [("op", ofWord op), ("left", left.toJson), ("right", right.toJson)])

def Condition.toJson : Condition → Json
  | .compare op left right =>
    tagged "Compare"
      (.object [("relop", ofWord op), ("left", left.toJson), ("right", right.toJson)])
  | .and left right => tagged "And" (.array [left.toJson, right.toJson])
  | .or left right => tagged "Or" (.array [left.toJson, right.toJson])
  | .not inner => tagged "Not" inner.toJson

/-- A block or program, from the forms of its statements. -/
def Form.statements (items : List Json) : Json := .object [("statements", .array items)]

mutual

def Statement.toJson : Statement → Json
  | .action word none => tagged "Action" (.object [("action", ofWord word), ("count", .null)])
  | .action word (some count) =>
    tagged "Action" (.object [("action", ofWord word), ("count", count.toJson)])
  | .loop body => tagged "Loop" (.object [("body", Form.statements (Statement.allToJson body))])
  | .branch test body elifs otherwise =>
    tagged "If"
      (.object [("condition", test.toJson),
        ("then_block", Form.statements (Statement.allToJson body)),
        ("elifs", .array (Statement.elifsToJson elifs)),
        ("else_block", Statement.elseToJson otherwise)])
  | .whileLoop test body =>
    tagged "While"
      (.object [("condition", test.toJson),
        ("body", Form.statements (Statement.allToJson body))])
  | .assign name value =>
    tagged "Assignment" (.object [("name", .string name), ("value", value.toJson)])

def Statement.allToJson : List Statement → List Json
  | [] => []
  | s :: rest => s.toJson :: Statement.allToJson rest

def Statement.elifsToJson : List (Condition × List Statement) → List Json
  | [] => []
  | (test, body) :: rest =>
    .object [("condition", test.toJson),
      ("block", Form.statements (Statement.allToJson body))] :: Statement.elifsToJson rest

def Statement.elseToJson : Option (List Statement) → Json
  | none => .null
  | some body => Form.statements (Statement.allToJson body)

end

def Block.toJson (block : Block) : Json := Form.statements (Statement.allToJson block)

def Program.toJson (program : Program) : Json :=
  Form.statements (Statement.allToJson program.statements)

/-- A sensor node, with or without a rank. -/
def Expr.reading (word : Sensor) : Option Expr → Expr
  | none => .sensor word
  | some rank => .ranked word rank

def Expr.ofJson? : (levels : Nat) → Json → Option Expr
  | _ + 1, .object [("Number", body)] => (int32? body).map .number
  | _ + 1, .object [("Variable", body)] => (string? body).map .var
  | levels + 2, .object [("Sensor", body)] => do
    let [some word, rank] ← fields? ["sensor", "rank"] (levels + 1) body | none
    return .reading (← Form.word levels word) (← optional (Expr.ofJson? levels) rank)
  | levels + 2, .object [("Binary", body)] => do
    let [some op, some left, some right] ← fields? ["op", "left", "right"] (levels + 1) body
      | none
    return .binary (← Form.word levels op) (← Expr.ofJson? levels left)
      (← Expr.ofJson? levels right)
  | _, _ => none

def Condition.ofJson? : (levels : Nat) → Json → Option Condition
  | levels + 2, .object [("Compare", body)] => do
    let [some op, some left, some right] ← fields? ["relop", "left", "right"] (levels + 1) body
      | none
    return .compare (← Form.word levels op) (← Expr.ofJson? levels left)
      (← Expr.ofJson? levels right)
  | levels + 2, .object [("And", .array [left, right])] =>
    return .and (← Condition.ofJson? levels left) (← Condition.ofJson? levels right)
  | levels + 2, .object [("Or", .array [left, right])] =>
    return .or (← Condition.ofJson? levels left) (← Condition.ofJson? levels right)
  | levels + 1, .object [("Not", inner)] => return .not (← Condition.ofJson? levels inner)
  | _, _ => none

mutual

def Statement.ofJson? : (levels : Nat) → Json → Option Statement
  | levels + 2, .object [("Action", body)] => do
    let [some word, count] ← fields? ["action", "count"] (levels + 1) body | none
    return .action (← Form.word levels word) (← optional (Expr.ofJson? levels) count)
  | levels + 2, .object [("Loop", body)] => do
    let [some body] ← fields? ["body"] (levels + 1) body | none
    return .loop (← Block.ofJson? levels body)
  | levels + 2, .object [("If", body)] => do
    let [some test, some body, some elifs, otherwise] ←
      fields? ["condition", "then_block", "elifs", "else_block"] (levels + 1) body | none
    return .branch (← Condition.ofJson? levels test) (← Block.ofJson? levels body)
      (← Elif.allOfJson? levels elifs) (← optional (Block.ofJson? levels) otherwise)
  | levels + 2, .object [("While", body)] => do
    let [some test, some body] ← fields? ["condition", "body"] (levels + 1) body | none
    return .whileLoop (← Condition.ofJson? levels test) (← Block.ofJson? levels body)
  | levels + 2, .object [("Assignment", body)] => do
    let [some name, some value] ← fields? ["name", "value"] (levels + 1) body | none
    return .assign (← string? name) (← Expr.ofJson? levels value)
  | _, _ => none

def Block.ofJson? : (levels : Nat) → Json → Option Block
  | levels + 2, j => do
    let [some items] ← fields? ["statements"] (levels + 2) j | none
    items? (Statement.ofJson? levels) (levels + 1) items
  | _, _ => none

/-- The array of the `elif` branches of an `if`. -/
def Elif.allOfJson? : (levels : Nat) → Json → Option (List Elif)
  | levels + 1, j => items? (Elif.ofJson? levels) (levels + 1) j
  | _, _ => none

def Elif.ofJson? : (levels : Nat) → Json → Option Elif
  | levels + 1, j => do
    let [some test, some body] ← fields? ["condition", "block"] (levels + 1) j | none
    return (← Condition.ofJson? levels test, ← Block.ofJson? levels body)
  | _, _ => none

end

def Program.ofJson? (levels : Nat) (j : Json) : Option Program :=
  (Block.ofJson? levels j).map Program.mk

end RobotScript
