import RobotScript.Word
import RobotScript.Decimal
import RobotScript.Json.Read

/-!
# JSON forms

How values of the library are found in JSON. A reader of a form is told how many
arrays and objects may still be opened; opening one more than `maxLevels` in all is a
failure. What is skipped (a field nobody asked for) is not counted.

* `word`: a reserved word is its tag, alone or as the key of a null.
* `fields`: a record is an object with its fields in any order, other fields being
  skipped, or the array of all its fields in order.
-/

namespace RobotScript.Form

/-- How many arrays and objects may be open at once. -/
def maxLevels : Nat := 127

def int32? : Json → Option Int32
  | .int value => Decimal.toInt32? value
  | _ => none

def uint64? : Json → Option UInt64
  | .int value => Decimal.toUInt64? value
  | _ => none

def string? : Json → Option String
  | .string value => some value
  | _ => none

/-- The tag of a choice that carries nothing: a string, or the key of a null. -/
def bareTag? : (levels : Nat) → Json → Option String
  | _, .string tag => some tag
  | _ + 1, .object [(tag, .null)] => some tag
  | _, _ => none

/-- A reserved word, by its tag. -/
def word {α : Type} [Word α] (levels : Nat) (j : Json) : Option α :=
  (bareTag? levels j).bind Word.ofTag?

/-- The value of a field, if it is given; one that is given twice is a failure. -/
def field? (fields : List (String × Json)) (name : String) : Option (Option Json) :=
  match fields.filter fun f => f.1 == name with
  | [] => some none
  | [(_, j)] => some (some j)
  | _ => none

/-- **The fields of a record**, in the order of their names. -/
def fields? (names : List String) : (levels : Nat) → Json → Option (List (Option Json))
  | _ + 1, .object fields => names.mapM (field? fields)
  | _ + 1, .array items => if items.length = names.length then some (items.map some) else none
  | _, _ => none

/-- A field that may be missing or null. -/
def optional {α : Type} (read : Json → Option α) : Option Json → Option (Option α)
  | none => some none
  | some .null => some none
  | some j => (read j).map some

/-- The items of an array. -/
def items? {α : Type} (item : Json → Option α) : (levels : Nat) → Json → Option (List α)
  | _ + 1, .array items => items.mapM item
  | _, _ => none

/-- The value of a text in a form. -/
def ofText {α : Type} (read : Nat → Json → Option α) (text : String) : Option α :=
  (Json.read? text).bind (read maxLevels)

/-- A choice that carries a value. -/
def tagged (tag : String) (value : Json) : Json := .object [(tag, value)]

def ofInt32 (value : Int32) : Json := .int value.toInt

def ofWord {α : Type} [Word α] (w : α) : Json := .string (Word.tag w)

end RobotScript.Form
