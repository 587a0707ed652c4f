import RobotScript.Json
import RobotScript.Decimal

/-!
# Writing JSON

`Json.write` is the compact text of a value: no blanks, and in strings only quotes,
backslashes and control characters are escaped.
-/

namespace RobotScript.Json

/-- A hexadecimal digit, in lower case. -/
def hexDigit (n : Nat) : Char := Nat.digitChar n

/-- How a character stands in a string. -/
def escape (c : Char) : List Char :=
  if c = '"' then ['\\', '"']
  else if c = '\\' then ['\\', '\\']
  else if c = '\x08' then ['\\', 'b']
  else if c = '\x0c' then ['\\', 'f']
  else if c = '\n' then ['\\', 'n']
  else if c = '\r' then ['\\', 'r']
  else if c = '\t' then ['\\', 't']
  else if c.toNat < 0x20 then
    ['\\', 'u', '0', '0', hexDigit (c.toNat / 16), hexDigit (c.toNat % 16)]
  else [c]

/-- A string in quotes, in front of `rest`. -/
def quote (s : String) (rest : List Char) : List Char :=
  '"' :: (s.toList.flatMap escape ++ '"' :: rest)

mutual

/-- The text of a value, in front of `rest`. -/
def writeTo : Json → List Char → List Char
  | .null, rest => "null".toList ++ rest
  | .bool true, rest => "true".toList ++ rest
  | .bool false, rest => "false".toList ++ rest
  | .int value, rest => (Decimal.ofInt value).toList ++ rest
  | .string value, rest => quote value rest
  | .array items, rest => '[' :: writeItems items (']' :: rest)
  | .object fields, rest => '\x7b' :: writeFields fields ('\x7d' :: rest)
  | .verbatim text, rest => text.toList ++ rest

def writeItems : List Json → List Char → List Char
  | [], rest => rest
  | [j], rest => j.writeTo rest
  | j :: more, rest => j.writeTo (',' :: writeItems more rest)

def writeFields : List (String × Json) → List Char → List Char
  | [], rest => rest
  | [(key, j)], rest => quote key (':' :: j.writeTo rest)
  | (key, j) :: more, rest => quote key (':' :: j.writeTo (',' :: writeFields more rest))

end

/-- **The compact text of a value.** -/
def write (j : Json) : String := String.ofList (j.writeTo [])

end RobotScript.Json
