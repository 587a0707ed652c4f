import RobotScript.Token

/-!
# Scanning

Script text is cut into lexemes. A delimiter is a lexeme by itself; separators end
a lexeme and are dropped; any other run of characters is one lexeme.

* `Scan.lexemes` is the cut of a text.
* `Scanner` goes through a text with a cursor; `Scanner.scan` goes on to the end and hands
  over the tokens on the way.
-/

namespace RobotScript

namespace Scan

/-- Characters that stand between lexemes. -/
def isSeparator (c : Char) : Bool :=
  c == ' ' || c == '\t' || c == '\n' || c == '\x0b' || c == '\x0c' || c == '\r'

/-- Characters that are lexemes by themselves. -/
def isDelimiter (c : Char) : Bool :=
  c == '\x7b' || c == '\x7d' || c == '(' || c == ')' || c == ',' || c == ';'

/-- Puts a pending word, held in reverse, in front of the lexemes after it. -/
def flush : List Char → List String → List String
  | [], rest => rest
  | word, rest => String.ofList word.reverse :: rest

/-- The lexemes of a text that follows the pending word. -/
def lexemesFrom (word : List Char) : List Char → List String
  | [] => flush word []
  | c :: cs =>
    if isSeparator c then flush word (lexemesFrom [] cs)
    else if isDelimiter c then flush word (String.singleton c :: lexemesFrom [] cs)
    else lexemesFrom (c :: word) cs

/-- **The lexemes of a text.** -/
def lexemes (text : String) : List String := lexemesFrom [] text.toList

end Scan

/-- The tokens of a text. -/
def Token.scan (text : String) : List Token := (Scan.lexemes text).map Token.ofLexeme

/-- A text with a cursor. The lexeme under way begins at `start`, and `tokens` are those
found and not yet handed over. -/
structure Scanner where
  source : Array Char
  start : Nat
  current : Nat
  tokens : Array Token

namespace Scanner

/-- A scanner in front of a text. -/
def ofText (text : String) : Scanner := ⟨text.toList.toArray, 0, 0, #[]⟩

/-- The character at the cursor, unless that is at the end. -/
def peek? (scanner : Scanner) : Option Char := scanner.source[scanner.current]?

def advance (scanner : Scanner) : Scanner := { scanner with current := scanner.current + 1 }

/-- How many characters follow the cursor. -/
def left (scanner : Scanner) : Nat := scanner.source.size - scanner.current

/-- Adds the token of the lexeme that ends at the cursor. -/
def addToken (scanner : Scanner) : Scanner :=
  let lexeme := String.ofList (scanner.source.extract scanner.start scanner.current).toList
  { scanner with tokens := scanner.tokens.push (Token.ofLexeme lexeme) }

theorem left_advance {scanner : Scanner} {c : Char} (h : scanner.peek? = some c) :
    scanner.advance.left < scanner.left := by
  have hlt : scanner.current < scanner.source.size := (Array.getElem?_eq_some_iff.1 h).1
  have hcurrent : scanner.advance.left = scanner.source.size - (scanner.current + 1) := rfl
  unfold left at hcurrent ⊢
  omega

/-- Moves the cursor to where a word ends: a separator, a delimiter or the end. -/
def skipWord (scanner : Scanner) : Scanner :=
  match _found : scanner.peek? with
  | some c =>
    if Scan.isSeparator c || Scan.isDelimiter c then scanner
    else scanner.advance.skipWord
  | none => scanner
termination_by scanner.left
decreasing_by exact left_advance _found

/-- Scans what begins with the character at the cursor. -/
def scanToken (scanner : Scanner) (c : Char) : Scanner :=
  let next := { scanner with start := scanner.current }.advance
  if Scan.isSeparator c then next
  else if Scan.isDelimiter c then next.addToken
  else next.skipWord.addToken

theorem left_skipWord (scanner : Scanner) : scanner.skipWord.left ≤ scanner.left := by
  fun_induction skipWord scanner with
  | case1 => exact Nat.le_refl _
  | case2 scanner c h _ ih => exact Nat.le_trans ih (Nat.le_of_lt (left_advance h))
  | case3 => exact Nat.le_refl _

theorem left_scanToken {scanner : Scanner} {c : Char} (h : scanner.peek? = some c) :
    (scanner.scanToken c).left < scanner.left := by
  have hnext : { scanner with start := scanner.current }.advance.left < scanner.left :=
    left_advance h
  unfold scanToken
  split
  · exact hnext
  · split
    · exact hnext
    · exact Nat.lt_of_le_of_lt (left_skipWord _) hnext

/-- Scans to the end. -/
def scanAll (scanner : Scanner) : Scanner :=
  match _found : scanner.peek? with
  | some c => (scanner.scanToken c).scanAll
  | none => scanner
termination_by scanner.left
decreasing_by exact left_scanToken _found

/-- **Scans to the end** and hands over the tokens found. -/
def scan (scanner : Scanner) : List Token × Scanner :=
  let done := scanner.scanAll
  (done.tokens.toList, { done with tokens := #[] })

end Scanner

end RobotScript
