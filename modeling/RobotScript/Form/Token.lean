import RobotScript.Token
import RobotScript.Form

/-!
# The JSON form of tokens

A kind is its name, or an object with the family of a reserved word as its one key.
-/

namespace RobotScript

open Form

namespace Kind

/-- The kinds that carry no reserved word. -/
def plain : List Kind :=
  [.loop, .ifWord, .elifWord, .elseWord, .whileWord, .var, .number, .assign, .leftParen,
    .rightParen, .leftBrace, .rightBrace, .comma, .semicolon, .word]

def toJson : Kind → Json
  | .action w => tagged "Action" (ofWord w)
  | .sensor w => tagged "Sensor" (ofWord w)
  | .operator w => tagged "Operator" (ofWord w)
  | .relop w => tagged "Relop" (ofWord w)
  | .combinator w => tagged "Combinator" (ofWord w)
  | kind => .string kind.tag

def ofJson? : (levels : Nat) → Json → Option Kind
  | levels + 1, .object [("Action", j)] => (Form.word levels j).map action
  | levels + 1, .object [("Sensor", j)] => (Form.word levels j).map sensor
  | levels + 1, .object [("Operator", j)] => (Form.word levels j).map operator
  | levels + 1, .object [("Relop", j)] => (Form.word levels j).map relop
  | levels + 1, .object [("Combinator", j)] => (Form.word levels j).map combinator
  | levels, j => do
    let name ← bareTag? levels j
    plain.find? fun kind => kind.tag == name

end Kind

namespace Token

def toJson (token : Token) : Json :=
  .object [("kind", token.kind.toJson), ("lexeme", .string token.lexeme)]

def ofJson? : (levels : Nat) → Json → Option Token
  | levels + 1, j => do
    let [some kind, some lexeme] ← fields? ["kind", "lexeme"] (levels + 1) j | none
    return ⟨← Kind.ofJson? levels kind, ← string? lexeme⟩
  | _, _ => none

/-- A list of tokens. -/
def allOfJson? : (levels : Nat) → Json → Option (List Token)
  | levels + 1, j => items? (Token.ofJson? levels) (levels + 1) j
  | _, _ => none

end Token

end RobotScript
