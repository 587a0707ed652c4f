import RobotScript.Json

/-!
# Reading JSON

The grammar is followed strictly: blanks are space, tab, line feed and carriage
return; no comma may be left over; numbers have no leading zero or plus sign; control
characters in strings are escaped; nothing but blanks follows the value.

* `Json.read?` is the value of a text, if it follows the grammar. Its nesting is not
  limited.
-/

namespace RobotScript.Json

def isBlank (c : Char) : Bool := c == ' ' || c == '\t' || c == '\n' || c == '\r'

def skipBlanks (cs : List Char) : List Char := cs.dropWhile isBlank

/-- What stands for a piece of a string: a character, or an escaped 16-bit unit. -/
inductive Piece
  | char (c : Char)
  | unit (n : Nat)

/-- The value of a hexadecimal digit, in either case. -/
def hexValue? (c : Char) : Option Nat :=
  if c.isDigit then some (c.toNat - '0'.toNat)
  else if 'a' ≤ c ∧ c ≤ 'f' then some (c.toNat - 'a'.toNat + 10)
  else if 'A' ≤ c ∧ c ≤ 'F' then some (c.toNat - 'A'.toNat + 10)
  else none

def hexUnit? (a b c d : Char) : Option Nat := do
  return (((← hexValue? a) * 16 + (← hexValue? b)) * 16 + (← hexValue? c)) * 16 + (← hexValue? d)

/-- The character that a backslash and `c` stand for. -/
def unescape? : Char → Option Char
  | '"' => some '"'
  | '\\' => some '\\'
  | '/' => some '/'
  | 'b' => some '\x08'
  | 'f' => some '\x0c'
  | 'n' => some '\n'
  | 'r' => some '\r'
  | 't' => some '\t'
  | _ => none

/-- The pieces of a string up to its closing quote, and what follows the quote. -/
def pieces? : List Char → Option (List Piece × List Char)
  | '"' :: cs => some ([], cs)
  | '\\' :: 'u' :: a :: b :: c :: d :: cs => do
    let n ← hexUnit? a b c d
    let (ps, rest) ← pieces? cs
    return (.unit n :: ps, rest)
  | '\\' :: c :: cs => do
    let c ← unescape? c
    let (ps, rest) ← pieces? cs
    return (.char c :: ps, rest)
  | c :: cs =>
    if c.toNat < 0x20 || c == '\\' then none
    else do
      let (ps, rest) ← pieces? cs
      return (.char c :: ps, rest)
  | [] => none

def isHighUnit (n : Nat) : Bool := 0xD800 ≤ n && n < 0xDC00

def isLowUnit (n : Nat) : Bool := 0xDC00 ≤ n && n < 0xE000

/-- The text of a list of pieces: a high unit and the low unit after it are one
character, and neither may stand alone. -/
def text? : List Piece → Option (List Char)
  | [] => some []
  | .char c :: ps => (text? ps).map (c :: ·)
  | .unit high :: .unit low :: ps =>
    if isHighUnit high && isLowUnit low then
      (text? ps).map (Char.ofNat (0x10000 + (high - 0xD800) * 0x400 + (low - 0xDC00)) :: ·)
    else if isHighUnit high || isLowUnit high then none
    else (text? (.unit low :: ps)).map (Char.ofNat high :: ·)
  | .unit n :: ps =>
    if isHighUnit n || isLowUnit n then none else (text? ps).map (Char.ofNat n :: ·)

/-- A string after its opening quote: its text, if it has one, and what follows. -/
def string? (cs : List Char) : Option (Option String × List Char) := do
  let (ps, rest) ← pieces? cs
  return ((text? ps).map String.ofList, rest)

/-- What stands before `rest` at the end of `cs`. -/
def before (cs rest : List Char) : String := String.ofList (cs.take (cs.length - rest.length))

/-- A non-empty run of digits, and what follows. -/
def digits? (cs : List Char) : Option (List Char × List Char) :=
  match cs.span Char.isDigit with
  | ([], _) => none
  | (ds, rest) => some (ds, rest)

/-- Digits with no leading zero, and what follows. -/
def whole? (cs : List Char) : Option (List Char × List Char) := do
  match ← digits? cs with
  | ('0' :: _ :: _, _) => none
  | found => return found

/-- What follows an optional fraction. -/
def afterFraction? : List Char → Option (List Char)
  | '.' :: cs => (digits? cs).map Prod.snd
  | cs => some cs

/-- What follows the digits of an exponent, which may have a sign. -/
def afterExponent? : List Char → Option (List Char)
  | '+' :: cs => (digits? cs).map Prod.snd
  | '-' :: cs => (digits? cs).map Prod.snd
  | cs => (digits? cs).map Prod.snd

/-- What follows an optional fraction and an optional exponent. -/
def afterNumber? (cs : List Char) : Option (List Char) := do
  match ← afterFraction? cs with
  | 'e' :: cs => afterExponent? cs
  | 'E' :: cs => afterExponent? cs
  | cs => return cs

/-- A number without its sign. It is an integer if it is all digits, and it is not
minus zero. -/
def unsigned? (negative : Bool) (cs : List Char) : Option (Json × List Char) := do
  let (ds, tail) ← whole? cs
  let rest ← afterNumber? tail
  let value := Nat.ofDigitChars 10 ds 0
  if tail.length = rest.length && !(negative && value == 0) then
    return (.int (if negative then -(value : Int) else value), rest)
  else
    return (.verbatim ((if negative then "-" else "") ++ before cs rest), rest)

def number? : List Char → Option (Json × List Char)
  | '-' :: cs => unsigned? true cs
  | cs => unsigned? false cs

/-- The object whose members stand between `start` and `after`; one with a key that is
no text is kept as written. -/
def ofMembers (start after : List Char) (members : List (Option String × Json)) : Json :=
  match members.mapM fun (key, j) => key.map fun key => (key, j) with
  | some fields => .object fields
  | none => .verbatim ("\x7b" ++ before start after)

mutual

/-- A value, after blanks, and what follows it, in at most `n` nested calls. -/
def value? : (n : Nat) → List Char → Option (Json × List Char)
  | 0, _ => none
  | n + 1, cs =>
    match skipBlanks cs with
    | 'n' :: 'u' :: 'l' :: 'l' :: rest => some (.null, rest)
    | 't' :: 'r' :: 'u' :: 'e' :: rest => some (.bool true, rest)
    | 'f' :: 'a' :: 'l' :: 's' :: 'e' :: rest => some (.bool false, rest)
    | '"' :: rest => do
      match ← string? rest with
      | (some s, after) => return (.string s, after)
      | (none, after) => return (.verbatim ("\"" ++ before rest after), after)
    | '[' :: rest =>
      match skipBlanks rest with
      | ']' :: after => some (.array [], after)
      | start => (items? n start).map fun (items, after) => (.array items, after)
    | '\x7b' :: rest =>
      match skipBlanks rest with
      | '\x7d' :: after => some (.object [], after)
      | start => (members? n start).map fun (members, after) =>
        (ofMembers rest after members, after)
    | start => number? start

/-- The values of an array up to its closing bracket, and what follows. -/
def items? : (n : Nat) → List Char → Option (List Json × List Char)
  | 0, _ => none
  | n + 1, cs => do
    let (j, rest) ← value? n cs
    match skipBlanks rest with
    | ']' :: after => return ([j], after)
    | ',' :: more =>
      let (items, after) ← items? n more
      return (j :: items, after)
    | _ => none

/-- The fields of an object up to its closing brace, and what follows. -/
def members? : (n : Nat) → List Char → Option (List (Option String × Json) × List Char)
  | 0, _ => none
  | n + 1, cs => do
    match skipBlanks cs with
    | '"' :: start =>
      let (key, rest) ← string? start
      match skipBlanks rest with
      | ':' :: rest =>
        let (j, rest) ← value? n rest
        match skipBlanks rest with
        | '\x7d' :: after => return ([(key, j)], after)
        | ',' :: more =>
          let (members, after) ← members? n more
          return ((key, j) :: members, after)
        | _ => none
      | _ => none
    | _ => none

end

/-- **The value of a text.** A call and the one inside it take at least one character
together, so twice the length bounds the nested calls. -/
def read? (text : String) : Option Json := do
  let cs := text.toList
  let (j, rest) ← value? (2 * cs.length + 2) cs
  if (skipBlanks rest).isEmpty then return j else none

end RobotScript.Json
