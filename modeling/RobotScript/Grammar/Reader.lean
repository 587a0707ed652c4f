import RobotScript.Token
import RobotScript.Grammar.Fault

/-!
# Readers

A reader takes tokens from the front of a list and gives a value or a fault. The
tokens it leaves are known either way: a fault does not give back what was taken.

What is read does not depend on how the tokens are kept, so it is said for any
`TokenSource`; a list is the simplest one.

* `require` takes a token of one kind.
* `sequence` reads items until a test says that there are no more.
-/

namespace RobotScript

/-- Where tokens are taken from. -/
class TokenSource (m : Type → Type) where
  /-- The next token, which stays in place. -/
  peek : m (Option Token)
  /-- Takes the next token, if there is one. -/
  skip : m Unit
  /-- How many tokens there still are. -/
  left : m Nat
  /-- Opens a level for as long as the computation takes. -/
  nested {α : Type} (inner : m α) : m α

/-- Takes tokens from the front of a list and gives a value or a fault. -/
abbrev Reader := EStateM Fault (List Token)

/-- A list does not keep count of the open levels. -/
instance : TokenSource Reader where
  peek := fun ts => .ok ts.head? ts
  skip := fun ts => .ok () ts.tail
  left := fun ts => .ok ts.length ts
  nested inner := inner

namespace Reader

export TokenSource (peek skip left nested)

variable {m : Type → Type} [Monad m] [MonadExceptOf Fault m] [TokenSource m]

def peekKind : m (Option Kind) := return (← peek).map Token.kind

/-- Takes the next token, which must be of the given kind. -/
def require (kind : Kind) (fault : Fault) : m Token := do
  match ← peek with
  | some t =>
    if t.kind = kind then
      skip
      return t
    else
      throw fault
  | none => throw fault

/-- Whether the next token is of the given kind. -/
def isNext (kind : Kind) : m Bool := return (← peekKind) == some kind

def isDone : m Bool := return (← peek).isNone

/-- Reads at most `n` items, until `done` holds. -/
def upTo {α : Type} (done : m Bool) (item : m α) : Nat → m (List α)
  | 0 => pure []
  | n + 1 => do
    if ← done then
      return []
    else
      let first ← item
      let rest ← upTo done item n
      return first :: rest

/-- **Reads items until `done` holds.** Every item takes at least one token, so one
more than the number of tokens bounds the number of tries. -/
def sequence {α : Type} (done : m Bool) (item : m α) : m (List α) := do
  upTo done item ((← left) + 1)

end Reader

end RobotScript
