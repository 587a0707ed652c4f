import RobotScript.Word

/-!
# Tokens

A token is a lexeme with its kind.

* `Kind.classify` gives a lexeme its kind: that of the reserved word or sign it
  spells, else a variable, else a number, else a plain word.
-/

namespace RobotScript

/-- The kinds of tokens. -/
inductive Kind
  | action (word : Action)
  | sensor (word : Sensor)
  | operator (word : ArithOp)
  | relop (word : Relop)
  | combinator (word : Combinator)
  | loop
  | ifWord
  | elifWord
  | elseWord
  | whileWord
  | var
  | number
  | assign
  | leftParen
  | rightParen
  | leftBrace
  | rightBrace
  | comma
  | semicolon
  | word
deriving DecidableEq

namespace Kind

/-- The control words and signs, by spelling. -/
def signs : List (String × Kind) :=
  [("loop", .loop), ("if", .ifWord), ("elif", .elifWord), ("else", .elseWord),
    ("while", .whileWord), ("=", .assign), ("(", .leftParen), (")", .rightParen),
    ("\x7b", .leftBrace), ("\x7d", .rightBrace), (",", .comma), (";", .semicolon)]

private def family {α : Type} [Word α] (kind : α → Kind) : List (String × Kind) :=
  Word.all.map fun w => (Word.spelling w, kind w)

/-- Everything that is recognised by its spelling alone. -/
def reserved : List (String × Kind) :=
  signs ++ family action ++ family sensor ++ family operator ++ family relop ++
    family combinator

/-- A dollar sign, a letter, then letters and digits. -/
def isVariable : List Char → Bool
  | '$' :: c :: cs => c.isAlpha && cs.all Char.isAlphanum
  | _ => false

/-- An optional minus sign, then one or more digits. -/
def isNumber : List Char → Bool
  | '-' :: cs => !cs.isEmpty && cs.all Char.isDigit
  | cs => !cs.isEmpty && cs.all Char.isDigit

/-- **The kind of a lexeme.** -/
def classify (lexeme : String) : Kind :=
  match reserved.lookup lexeme with
  | some kind => kind
  | none =>
    if isVariable lexeme.toList then .var
    else if isNumber lexeme.toList then .number
    else .word

/-- The name of a kind, for the kinds that carry no reserved word. -/
def tag : Kind → String
  | .action _ => "Action"
  | .sensor _ => "Sensor"
  | .operator _ => "Operator"
  | .relop _ => "Relop"
  | .combinator _ => "Combinator"
  | .loop => "Loop"
  | .ifWord => "If"
  | .elifWord => "Elif"
  | .elseWord => "Else"
  | .whileWord => "While"
  | .var => "Variable"
  | .number => "Number"
  | .assign => "Assign"
  | .leftParen => "LeftParen"
  | .rightParen => "RightParen"
  | .leftBrace => "LeftBrace"
  | .rightBrace => "RightBrace"
  | .comma => "Comma"
  | .semicolon => "Semicolon"
  | .word => "Word"

/-- How a kind is shown: the reserved word it carries, else its name. -/
def display : Kind → String
  | .action w => Word.spelling w
  | .sensor w => Word.spelling w
  | .operator w => Word.spelling w
  | .relop w => Word.spelling w
  | .combinator w => Word.spelling w
  | kind => kind.tag

end Kind

/-- A lexeme with its kind. -/
structure Token where
  kind : Kind
  lexeme : String
deriving DecidableEq

/-- The token of a lexeme, of the kind the lexeme has. -/
def Token.ofLexeme (lexeme : String) : Token := ⟨Kind.classify lexeme, lexeme⟩

end RobotScript
