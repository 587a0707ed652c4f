import RobotScript.Decimal
import RobotScript.Tree
import RobotScript.Grammar.Reader

/-!
# The grammar

One reader for each production, for tokens from any source. Blocks, conditions and
expressions may be open inside each other up to `maxNesting` levels. A reader is given
a number of levels still free, and one that would open a block, condition or expression
at none reports that the nesting is too deep; so may the source, which is told whenever
a level is opened.

    program    ::= statement+
    statement  ::= action ';' | loop | if | while | assignment
    action     ::= word [ '(' expr ')' ]                 (a count: move and wait only)
    loop       ::= 'loop' block
    if         ::= 'if' '(' cond ')' block
                   ( 'elif' '(' cond ')' block )* [ 'else' block ]
    while      ::= 'while' '(' cond ')' block
    assignment ::= variable '=' expr ';'
    block      ::= '{' statement+ '}'
    cond       ::= relop '(' expr ',' expr ')'
                 | ( 'and' | 'or' ) '(' cond ',' cond ')' | 'not' '(' cond ')'
    expr       ::= sensor [ '(' expr ')' ] | number | variable
                 | operator '(' expr ',' expr ')'        (a rank: barrel sensors only)
-/

namespace RobotScript

/-- How many blocks, conditions and expressions may be open at once. -/
def maxNesting : Nat := 64

namespace Grammar

open Reader

variable {m : Type → Type} [Monad m] [MonadExceptOf Fault m] [TokenSource m]

def variableName : m String := return (← require .var .notVariable).lexeme

/-- A number token whose lexeme is a 32-bit integer; any other is left in place. -/
def number : m Expr := do
  match ← peek with
  | some t =>
    match if t.kind = .number then Decimal.int32? t.lexeme else none with
    | some value =>
      skip
      return .number value
    | none => throw .notInteger
  | none => throw .notInteger

/-- An expression in parentheses, if there is a parenthesis and one is allowed. -/
def argument (allowed : Bool) (place : Place) (expr : m Expr) : m (Option Expr) := do
  if allowed && (← isNext .leftParen) then
    let _ ← require .leftParen (.noOpen place)
    let value ← expr
    let _ ← require .rightParen (.noClose place)
    return some value
  else
    return none

def sensor (expr : m Expr) : m Expr := do
  match ← peekKind with
  | some (.sensor word) =>
    skip
    match ← argument word.takesRank .sensor expr with
    | some rank => return .ranked word rank
    | none => return .sensor word
  | _ => throw .notSensor

/-- An expression, with `room` levels left. -/
def expression : (room : Nat) → m Expr
  | 0 => throw .tooDeep
  | room + 1 => nested do
    match ← peekKind with
    | some (.sensor _) => sensor (expression room)
    | some .number => number
    | some .var => return .var (← variableName)
    | some (.operator op) =>
      skip
      let _ ← require .leftParen (.noOpen .expression)
      let left ← expression room
      let _ ← require .comma (.noComma .expression)
      let right ← expression room
      let _ ← require .rightParen (.noClose .expression)
      return .binary op left right
    | _ => throw .notExpression

/-- A condition, with `room` levels left. -/
def condition : (room : Nat) → m Condition
  | 0 => throw .tooDeep
  | room + 1 => nested do
    match ← peekKind with
    | some (.relop op) =>
      skip
      let _ ← require .leftParen (.noOpen .relop)
      let left ← expression room
      let _ ← require .comma (.noComma .relop)
      let right ← expression room
      let _ ← require .rightParen (.noClose .condition)
      return .compare op left right
    | some (.combinator .not) =>
      skip
      let _ ← require .leftParen (.noOpen (.combinator .not))
      let inner ← condition room
      let _ ← require .rightParen (.noClose .condition)
      return .not inner
    | some (.combinator word) =>
      skip
      let _ ← require .leftParen (.noOpen (.combinator word))
      let left ← condition room
      let _ ← require .comma (.noComma (.combinator word))
      let right ← condition room
      let _ ← require .rightParen (.noClose .condition)
      return if word = .and then .and left right else .or left right
    | _ => throw .notCondition

def action (room : Nat) : m Statement := do
  match ← peekKind with
  | some (.action word) =>
    skip
    let count ← argument word.takesCount .action (expression room)
    let _ ← require .semicolon .noSemicolon
    return .action word count
  | _ => throw .notAction

def loop (block : m Block) : m Statement := do
  let _ ← require .loop .notLoop
  return .loop (← block)

/-- A condition in parentheses and the block that depends on it. -/
def guarded (room : Nat) (block : m Block) (place : Place) : m Elif := do
  let _ ← require .leftParen (.noOpen place)
  let test ← condition room
  let _ ← require .rightParen (.noClose place)
  return (test, ← block)

def elif (room : Nat) (block : m Block) : m Elif := do
  let _ ← require .elifWord .noElif
  guarded room block .elifStatement

def otherwise (block : m Block) : m (Option Block) := do
  if ← isNext .elseWord then
    let _ ← require .elseWord .noElse
    return some (← block)
  else
    return none

def branch (room : Nat) (block : m Block) : m Statement := do
  let _ ← require .ifWord .noIf
  let (test, body) ← guarded room block .ifStatement
  let elifs ← sequence (return !(← isNext .elifWord)) (elif room block)
  return .branch test body elifs (← otherwise block)

def whileLoop (room : Nat) (block : m Block) : m Statement := do
  let _ ← require .whileWord .noWhile
  let (test, body) ← guarded room block .whileStatement
  return .whileLoop test body

def assignment (room : Nat) : m Statement := do
  let name ← variableName
  let _ ← require .assign .noAssign
  let value ← expression room
  let _ ← require .semicolon .noAssignEnd
  return .assign name value

/-- A statement, with `room` levels left and `block` the reader for its blocks. -/
def statementOf (room : Nat) (block : m Block) : m Statement := do
  match ← peekKind with
  | some (.action _) => action room
  | some .loop => loop block
  | some .ifWord => branch room block
  | some .whileWord => whileLoop room block
  | some .var => assignment room
  | _ => throw .notStatement

/-- One or more statements, until `done` holds. -/
def statements (done : m Bool) (statement : m Statement) : m Block := do
  let first ← statement
  let rest ← sequence done statement
  return first :: rest

/-- A block, with `room` levels left. -/
def block : (room : Nat) → m Block
  | 0 => throw .tooDeep
  | room + 1 => nested do
    let _ ← require .leftBrace .noBlockOpen
    let body ← statements (isNext .rightBrace) (statementOf room (block room))
    let _ ← require .rightBrace .noBlockClose
    return body

/-- A statement, with `room` levels left. -/
def statement (room : Nat) : m Statement := statementOf room (block room)

/-- **A program** with `room` levels: one or more statements up to the end. -/
def programWith (room : Nat) : m Program := return ⟨← statements isDone (statement room)⟩

/-- Reads up to the end. -/
def whole {α : Type} (fault : Fault) (x : m α) : m α := do
  let value ← x
  if ← isDone then return value else throw fault

/-- **A program**: one or more statements up to the end. -/
def program : Reader Program := programWith maxNesting

/-- **An expression** up to the end. -/
def wholeExpression : Reader Expr := whole .afterExpression (expression maxNesting)

/-- **A condition** up to the end. -/
def wholeCondition : Reader Condition := whole .afterCondition (condition maxNesting)

end Grammar

end RobotScript
