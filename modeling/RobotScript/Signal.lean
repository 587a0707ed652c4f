/-!
# Stop signals

A stop signal is reached through handles. A handle made anew starts a family of its
own; a clone belongs to the family of the handle it was made from. Stopping or
resetting one handle does so for its whole family.

* `Switchboard` says for each family whether its signal is raised.
* `Panel` is a growing list of handles.
-/

namespace RobotScript

/-- A handle on a stop signal, given by its family. -/
structure Signal where
  family : Nat
deriving DecidableEq

/-- How many families there are, and for each whether its signal is raised. -/
@[ext]
structure Switchboard where
  families : Nat := 0
  raised : Nat → Bool := fun _ => false

namespace Switchboard

def isStopped (board : Switchboard) (signal : Signal) : Bool := board.raised signal.family

/-- Raises or lowers the signal of a handle. -/
def put (board : Switchboard) (signal : Signal) (raised : Bool) : Switchboard where
  families := board.families
  raised family := if family = signal.family then raised else board.raised family

/-- A handle on a new signal, which is not raised. -/
def fresh (board : Switchboard) : Signal × Switchboard :=
  let signal := ⟨board.families⟩
  (signal, { board with families := board.families + 1 }.put signal false)

def stop (board : Switchboard) (signal : Signal) : Switchboard := board.put signal true

def reset (board : Switchboard) (signal : Signal) : Switchboard := board.put signal false

section

variable (board : Switchboard) (signal : Signal)

theorem isStopped_put (raised : Bool) : (board.put signal raised).isStopped signal = raised := by
  simp [put, isStopped]

theorem isStopped_put_of_ne {other : Signal} (h : other ≠ signal) (raised : Bool) :
    (board.put signal raised).isStopped other = board.isStopped other := by
  have hfamily : other.family ≠ signal.family := fun heq => h (congrArg Signal.mk heq)
  simp [put, isStopped, hfamily]

theorem put_isStopped : board.put signal (board.isStopped signal) = board := by
  ext family
  · rfl
  · by_cases h : family = signal.family <;> simp [put, isStopped, h]

theorem put_put (raised raised' : Bool) :
    (board.put signal raised).put signal raised' = board.put signal raised' := by
  ext family
  · rfl
  · by_cases h : family = signal.family <;> simp [put, h]

end

end Switchboard

/-- A second handle of the same family. -/
def Signal.clone (signal : Signal) : Signal := signal

/-- Handles, in the order they were made. -/
structure Panel where
  board : Switchboard := {}
  handles : List Signal := []

namespace Panel

/-- What can be done with handles; a handle is named by its position. -/
inductive Operation
  | fresh
  | default
  | clone (i : Nat)
  | stop (i : Nat)
  | reset (i : Nat)

/-- Adds a handle on a new signal. -/
def fresh (panel : Panel) : Panel :=
  let (signal, board) := panel.board.fresh
  ⟨board, panel.handles ++ [signal]⟩

/-- The default handle is one on a new signal too. A position with no handle changes nothing. -/
def apply (panel : Panel) : Operation → Panel
  | .fresh | .default => panel.fresh
  | .clone i =>
    match panel.handles[i]? with
    | some signal => { panel with handles := panel.handles ++ [signal.clone] }
    | none => panel
  | .stop i =>
    match panel.handles[i]? with
    | some signal => { panel with board := panel.board.stop signal }
    | none => panel
  | .reset i =>
    match panel.handles[i]? with
    | some signal => { panel with board := panel.board.reset signal }
    | none => panel

/-- For each handle whether its signal is raised. -/
def states (panel : Panel) : List Bool := panel.handles.map panel.board.isStopped

end Panel

end RobotScript
