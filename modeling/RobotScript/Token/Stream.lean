import RobotScript.Token

/-!
# Token streams

A stream is a token list with a cursor that moves only forward.

* `Stream.advance` takes the next token; at the end it changes nothing.
* `Stream.upcoming` looks ahead without taking anything.
-/

namespace RobotScript

/-- A token list and how many of its tokens have been taken. -/
structure Stream where
  tokens : List Token
  cursor : Nat

namespace Stream

def ofTokens (tokens : List Token) : Stream := ⟨tokens, 0⟩

/-- The tokens from the cursor on. -/
def rest (stream : Stream) : List Token := stream.tokens.drop stream.cursor

/-- How many tokens there are from the cursor on. -/
def left (stream : Stream) : Nat := stream.tokens.length - stream.cursor

def hasMore (stream : Stream) : Bool := stream.cursor < stream.tokens.length

def peek (stream : Stream) : Option Token := stream.tokens[stream.cursor]?

def peekKind (stream : Stream) : Option Kind := stream.peek.map Token.kind

/-- Whether there is a next token and its kind passes the test. -/
def check (stream : Stream) (test : Kind → Bool) : Bool := stream.peek.any fun t => test t.kind

def checkKind (stream : Stream) (kind : Kind) : Bool := stream.check (· == kind)

def advance (stream : Stream) : Option Token × Stream :=
  match stream.peek with
  | some t => (some t, { stream with cursor := stream.cursor + 1 })
  | none => (none, stream)

/-- The lexemes of the next `n` tokens, fewer at the end. -/
def upcoming (stream : Stream) (n : Nat) : List String :=
  (stream.rest.take n).map Token.lexeme

end Stream

end RobotScript
