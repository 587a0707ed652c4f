import RobotScript.Store
import RobotScript.Form

/-!
# The JSON form of stores

A store is an object whose field `variables` holds an object with the values by name.
If a name is given twice its last value counts.
-/

namespace RobotScript.Store

open Form

def toJson (store : Store) : Json :=
  .object [("variables", .object (store.snapshot.map fun (name, value) => (name, ofInt32 value)))]

/-- The store with the given entries; later ones count over earlier ones. -/
def ofList (entries : List (String × Int32)) : Store :=
  entries.foldl (fun store (name, value) => store.set name value) empty

def ofJson? : (levels : Nat) → Json → Option Store
  | levels + 2, j => do
    let [some (.object fields)] ← fields? ["variables"] (levels + 2) j | none
    return ofList (← fields.mapM fun (name, value) => (int32? value).map fun v => (name, v))
  | _, _ => none

end RobotScript.Store
