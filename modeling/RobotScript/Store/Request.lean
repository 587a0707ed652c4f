import RobotScript.Answer
import RobotScript.Form.Store

/-!
# Requests to a store

Everything that can be asked of a store, as data. A request that fails leaves the store
as it was.
-/

namespace RobotScript.Store

inductive Request
  | read (name : String)
  | set (name : String) (value : Int32)
  | get (name : String)
  | contains (name : String)
  | size
  | isEmpty
  | clear
  | snapshot
  | write
  | load (text : String)

/-- **The answer to a request**, and the store after it. -/
def answer (store : Store) : Request → Result × Store
  | .read name =>
    let (value, store) := store.read name
    (.ok (.number value), store)
  | .set name value => (.ok .done, store.set name value)
  | .get name => (.ok (.maybe (store.get? name)), store)
  | .contains name => (.ok (.truth (store.contains name)), store)
  | .size => (.ok (.count store.size), store)
  | .isEmpty => (.ok (.truth store.isEmpty), store)
  | .clear => (.ok .done, empty)
  | .snapshot =>
    let fields := store.snapshot.map fun (name, value) => (name, Form.ofInt32 value)
    (.ok (.json (.object fields)), store)
  | .write => (.ok (.json store.toJson), store)
  | .load text =>
    match Form.ofText ofJson? text with
    | some loaded => (.ok .done, loaded)
    | none => (.error .undecodable, store)

end RobotScript.Store
