import RobotScript.Reading

/-!
# Programs from files

A program file is read whole as UTF-8 text; a byte order mark is not removed. What stands
behind a path is not looked up here but given.

* `Source.text` is the text of a source, or why there is none.
* `Program.ofSource` parses it.
-/

namespace RobotScript

/-- What stands behind a path: the bytes of a file, or the reason given for there being
none. -/
inductive Source
  | file (bytes : ByteArray)
  | closed (reason : String)

namespace Source

/-- The reason given where the bytes of a file are no text. -/
def notUtf8 : String := "stream did not contain valid UTF-8"

def text : Source → Except String String
  | .file bytes =>
    match String.fromUTF8? bytes with
    | some s => .ok s
    | none => .error notUtf8
  | .closed reason => .error reason

end Source

/-- The program in a source; the path is named if there is no text to parse. -/
def Program.ofSource (path : String) (source : Source) : Except Error Program :=
  match source.text with
  | .ok text => Program.parse text
  | .error reason => .error (.unreadable path reason)

end RobotScript
