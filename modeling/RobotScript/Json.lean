/-!
# JSON values

The values that trees, tokens and stores are written as: integers are the only
numbers. Text that follows the JSON grammar and stands for no such value (a fraction,
a string that is not Unicode text) is kept as it was written.

* `Json.nesting` is how many arrays and objects are open at once, at most.
-/

namespace RobotScript

/-- JSON values; the fields of an object are in the order they are written in. -/
inductive Json
  | null
  | bool (value : Bool)
  | int (value : Int)
  | string (value : String)
  | array (items : List Json)
  | object (fields : List (String × Json))
  | verbatim (text : String)

mutual

/-- The largest number of arrays and objects that are open at once. -/
def Json.nesting : Json → Nat
  | .array items => 1 + Json.nestingItems items
  | .object fields => 1 + Json.nestingFields fields
  | _ => 0

def Json.nestingItems : List Json → Nat
  | [] => 0
  | j :: rest => max j.nesting (Json.nestingItems rest)

def Json.nestingFields : List (String × Json) → Nat
  | [] => 0
  | (_, j) :: rest => max j.nesting (Json.nestingFields rest)

end

end RobotScript
