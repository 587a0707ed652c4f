import RobotScript.Error
import RobotScript.Token.Stream
import RobotScript.Grammar.Production

/-!
# Parsers

A parser is a token stream that trees are read from. Each call reads one program,
expression or condition from the cursor on and leaves the cursor where the reading ended,
also when it failed.

* `Fault.toError` is what a caller is told: the fault and the next few lexemes.
-/

namespace RobotScript

/-- How many lexemes a parse error quotes. -/
def contextLength : Nat := 5

/-- The error for a fault met in front of `rest`. -/
def Fault.toError (fault : Fault) (rest : List Token) : Error :=
  .parse fault.message ((Stream.ofTokens rest).upcoming contextLength)

/-- A stream that trees are read from. -/
structure Parser extends Stream

namespace Parser

def ofTokens (tokens : List Token) : Parser := ⟨.ofTokens tokens⟩

/-- The parser with its cursor in front of the given rest of its tokens. -/
def moveTo (parser : Parser) (rest : List Token) : Parser :=
  ⟨⟨parser.tokens, parser.tokens.length - rest.length⟩⟩

/-- **Reads from the cursor on**, and moves the cursor to where the reading ended. -/
def call {α : Type} (reader : Reader α) (parser : Parser) : Except Error α × Parser :=
  match reader parser.rest with
  | .ok value rest => (.ok value, parser.moveTo rest)
  | .error fault rest => (.error (fault.toError rest), parser.moveTo rest)

def program : Parser → Except Error Program × Parser := call Grammar.program

def expression : Parser → Except Error Expr × Parser := call Grammar.wholeExpression

def condition : Parser → Except Error Condition × Parser := call Grammar.wholeCondition

end Parser

end RobotScript
