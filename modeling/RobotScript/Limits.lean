import RobotScript.Error
import RobotScript.Form

/-!
# Limits of a run

How many statements an evaluator may carry out in all; without a limit it goes on for
as long as the program does.
-/

namespace RobotScript

/-- The limits an evaluator keeps to. -/
structure Limits where
  maxSteps : Option UInt64 := none
deriving DecidableEq

namespace Limits

/-- Limits as a record whose only field may be left out, also as an empty array. -/
def ofJson? : (levels : Nat) → Json → Option Limits
  | _ + 1, .array [] => some {}
  | levels, j => do
    let [maxSteps] ← Form.fields? ["max_steps"] levels j | none
    return ⟨← Form.optional Form.uint64? maxSteps⟩

/-- **Limits from a text.** What is wrong with a text that cannot be read is said by
`explain`. -/
def parse (explain : String → String) (text : String) : Except Error Limits :=
  match Form.ofText ofJson? text with
  | some limits => .ok limits
  | none => .error (.invalidLimits (explain text))

end Limits

end RobotScript
