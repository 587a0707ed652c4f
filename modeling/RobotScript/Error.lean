import RobotScript.Word
import RobotScript.Decimal

/-!
# Errors

Everything that can go wrong for a caller, its message and how severe it is.
-/

namespace RobotScript

/-- What went wrong. -/
inductive Error
  | parse (message : String) (context : List String)
  | unreadable (path message : String)
  | divisionByZero (expression : String)
  | unknownWord (family spelling : String)
  | interrupted
  | limitExceeded (limit : UInt64)
  | invalidLimits (message : String)
deriving DecidableEq

/-- Fatal errors come back when the program is run again; the others come from outside. -/
inductive Severity
  | fatal
  | recoverable
deriving DecidableEq

namespace Error

def message : Error → String
  | .parse message context =>
    message ++ "\n   @ ..." ++ String.join (context.map (" " ++ ·)) ++ "..."
  | .unreadable path message => "Failed to read program " ++ path ++ ": " ++ message
  | .divisionByZero expression => "Arithmetic error: division by zero in " ++ expression
  | .unknownWord family spelling => "Unknown " ++ family ++ ": " ++ spelling
  | .interrupted => "Execution interrupted"
  | .limitExceeded limit =>
    "Execution limit exceeded (max: " ++ Decimal.ofNat limit.toNat ++ " statements)"
  | .invalidLimits message => "Invalid configuration: " ++ message

def severity : Error → Severity
  | .parse .. | .divisionByZero _ | .unknownWord .. => .fatal
  | .unreadable .. | .interrupted | .limitExceeded _ | .invalidLimits _ => .recoverable

def isParse : Error → Bool
  | .parse .. => true
  | _ => false

end Error

/-- The word of the family that is spelled `s`, or the error that names `s`. -/
def Word.read {α : Type} [Word α] (s : String) : Except Error α :=
  match ofSpelling? s with
  | some w => .ok w
  | none => .error (.unknownWord (family α) s)

end RobotScript
