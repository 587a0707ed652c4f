import RobotScript.Parser

/-!
# Parsers that keep count

A parser that counts the open levels itself, up by one where a block, condition or
expression is opened and down again where it is left, also by a fault. The count is kept
from one call to the next, as the cursor is.

* `Descent.call` reads from the cursor on and leaves cursor and count where the reading
  ended.
-/

namespace RobotScript

/-- A parser with the number of blocks, conditions and expressions that are open. -/
structure Descent extends Parser where
  depth : Nat

/-- Moves the cursor of a descent and gives a value or a fault. -/
abbrev Descending := EStateM Fault Descent

/-- Tokens are taken from the stream, and levels are counted. -/
instance : TokenSource Descending where
  peek := fun d => .ok d.peek d
  skip := fun d => .ok () { d with toParser := ⟨d.advance.2⟩ }
  left := fun d => .ok d.left d
  nested inner := fun d =>
    if maxNesting ≤ d.depth then
      .error .tooDeep d
    else
      match inner { d with depth := d.depth + 1 } with
      | .ok value d => .ok value { d with depth := d.depth - 1 }
      | .error fault d => .error fault { d with depth := d.depth - 1 }

namespace Descent

def ofTokens (tokens : List Token) : Descent := ⟨.ofTokens tokens, 0⟩

/-- **Reads from the cursor on.** -/
def call {α : Type} (reading : Descending α) (d : Descent) : Except Error α × Descent :=
  match reading d with
  | .ok value d => (.ok value, d)
  | .error fault d => (.error (fault.toError d.rest), d)

/-- One level more than can be open, so that the count is what ends a descent. -/
def levels : Nat := maxNesting + 1

def program : Descent → Except Error Program × Descent := call (Grammar.programWith levels)

def expression : Descent → Except Error Expr × Descent :=
  call (Grammar.whole .afterExpression (Grammar.expression levels))

def condition : Descent → Except Error Condition × Descent :=
  call (Grammar.whole .afterCondition (Grammar.condition levels))

end Descent

end RobotScript
