import RobotScript.Error
import RobotScript.Json

/-!
# Answers

What a request to a store or a session is answered with.
-/

namespace RobotScript

inductive Answer
  | done
  | number (value : Int32)
  | maybe (value : Option Int32)
  | truth (value : Bool)
  | count (value : Nat)
  | json (value : Json)

/-- Why a request was not fulfilled: an error, a JSON text that is not of the form asked
for, a counter at its end, or a loop that used up its rounds. -/
inductive Failure
  | error (error : Error)
  | undecodable
  | overflow
  | unfinished

abbrev Result := Except Failure Answer

/-- A value read from a JSON text, or the failure to do so. -/
def Failure.ofForm {α : Type} : Option α → Except Failure α
  | some value => .ok value
  | none => .error .undecodable

/-- A value, or the failure an error is. -/
def Failure.ofError {α : Type} : Except Error α → Except Failure α
  | .ok value => .ok value
  | .error e => .error (.error e)

end RobotScript
