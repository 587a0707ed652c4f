import RobotScript.Error
import RobotScript.Robot

/-!
# Traces

A trace is everything that happened in a run, in order: events, statements that passed
their checkpoint, and calls on the robot.

* `Event.text` is the line an event is logged as.
* `Trace.events` and `Trace.calls` are the two parts of a trace that are shown.
-/

namespace RobotScript

/-- What a run reports. -/
inductive Event
  | parsed (statements : Nat)
  | executing (statements : Nat)
  | aborted (steps : UInt64) (error : Error)
  | finished (steps : UInt64)
  | stopObserved (steps : UInt64)
  | assigned (name : String) (value : Int32)
  | acting (action : Action) (repeats : Int32)
  | rankReplaced (sensor : Sensor) (rank : Int32)
deriving DecidableEq

def Event.text : Event → String
  | .parsed n => "DEBUG parsed program statements=" ++ Decimal.ofNat n
  | .executing n => "DEBUG executing program statements=" ++ Decimal.ofNat n
  | .aborted steps error =>
    "DEBUG execution aborted steps=" ++ Decimal.ofNat steps.toNat ++ " error=" ++ error.message
  | .finished steps => "DEBUG execution finished steps=" ++ Decimal.ofNat steps.toNat
  | .stopObserved steps => "DEBUG stop signal observed steps=" ++ Decimal.ofNat steps.toNat
  | .assigned name value =>
    "TRACE assign variable=" ++ name ++ " value=" ++ Decimal.ofInt value.toInt
  | .acting action repeats =>
    "TRACE action action=" ++ Word.spelling action ++ " repeats=" ++ Decimal.ofInt repeats.toInt
  | .rankReplaced sensor rank =>
    "WARN barrel rank out of range, using 0 sensor=" ++ Word.spelling sensor ++ " rank=" ++
      Decimal.ofInt rank.toInt

/-- Something that happened: an event, a statement past its checkpoint, or a call with
whether the stop signal was raised after it. -/
inductive Mark
  | event (event : Event)
  | passed
  | call (call : Call) (raised : Bool)
deriving DecidableEq

abbrev Trace := List Mark

namespace Trace

def events (trace : Trace) : List Event :=
  trace.filterMap fun
    | .event event => some event
    | _ => none

def calls (trace : Trace) : List Call :=
  trace.filterMap fun
    | .call call _ => some call
    | _ => none

end Trace

/-- Calls by name, a run of `n` equal ones as `name*n`. -/
def Call.summary (calls : List Call) : List String :=
  let runs := calls.foldr (fun call (runs : List (Call × Nat)) =>
    match runs with
    | (next, n) :: rest => if call = next then (next, n + 1) :: rest else (call, 1) :: runs
    | [] => [(call, 1)]) []
  runs.map fun (call, n) => if n = 1 then call.name else call.name ++ "*" ++ Decimal.ofNat n

end RobotScript
