import RobotScript.Word
import RobotScript.Decimal

/-!
# Robots

A script runs against a robot: it performs deeds and answers queries. A call may change
the robot and may raise or lower the stop signal that the robot shares with whoever
runs the script. While a script runs, the signal changes in calls only: nobody else raises
or lowers it before the run is over.

* `Robot` is how a robot with states `ρ` responds to calls.
* `Robot.held` reaches a robot through something that holds it, `Robot.stacked` through
  any number of holders; every call is passed on as it is.
-/

namespace RobotScript

/-- What a robot can be told to do. -/
inductive Deed
  | moveStep
  | turnLeft
  | turnRight
  | takeFuel
  | idleWait
  | turnAround
  | setShield (on : Bool)
deriving DecidableEq

/-- What a robot can be asked; barrels are asked for by rank. -/
inductive Query
  | opponentFB
  | opponentLR
  | barrelFB (rank : Int32)
  | barrelLR (rank : Int32)
  | fuel
  | distanceToWall
  | numBarrels
deriving DecidableEq

/-- A call on a robot. -/
inductive Call
  | deed (d : Deed)
  | query (q : Query)
deriving DecidableEq

def Deed.name : Deed → String
  | .moveStep => "move_step"
  | .turnLeft => "turn_left"
  | .turnRight => "turn_right"
  | .takeFuel => "take_fuel"
  | .idleWait => "idle_wait"
  | .turnAround => "turn_around"
  | .setShield true => "set_shield(true)"
  | .setShield false => "set_shield(false)"

def Query.name : Query → String
  | .opponentFB => "opponent_fb"
  | .opponentLR => "opponent_lr"
  | .barrelFB rank => "barrel_fb(" ++ Decimal.ofInt rank.toInt ++ ")"
  | .barrelLR rank => "barrel_lr(" ++ Decimal.ofInt rank.toInt ++ ")"
  | .fuel => "fuel"
  | .distanceToWall => "distance_to_wall"
  | .numBarrels => "num_barrels"

def Call.name : Call → String
  | .deed d => d.name
  | .query q => q.name

/-- The deed an action stands for. -/
def Action.deed : Action → Deed
  | .move => .moveStep
  | .turnL => .turnLeft
  | .turnR => .turnRight
  | .takeFuel => .takeFuel
  | .wait => .idleWait
  | .turnAround => .turnAround
  | .shieldOn => .setShield true
  | .shieldOff => .setShield false

/-- The query a sensor stands for; only barrels have a rank. -/
def Sensor.query (rank : Int32) : Sensor → Query
  | .fuelLeft => .fuel
  | .oppLR => .opponentLR
  | .oppFB => .opponentFB
  | .numBarrels => .numBarrels
  | .barrelLR => .barrelLR rank
  | .barrelFB => .barrelFB rank
  | .wallDist => .distanceToWall

/-- A robot, and whether the stop signal it shares is raised. -/
structure Scene (ρ : Type) where
  robot : ρ
  raised : Bool

/-- How a robot with states `ρ` responds to calls. -/
structure Robot (ρ : Type) where
  act : Deed → Scene ρ → Scene ρ
  sense : Query → Scene ρ → Int32 × Scene ρ

/-- The ways to hold a robot without being one. -/
inductive Holder
  | reference
  | box
deriving DecidableEq

/-- A robot in a holder. -/
structure Held (holder : Holder) (ρ : Type) where
  inner : ρ

namespace Held

variable {holder : Holder} {ρ : Type}

/-- Passes a deed on to the robot in the holder. -/
def act (inner : Scene ρ → Scene ρ) (scene : Scene (Held holder ρ)) : Scene (Held holder ρ) :=
  let after := inner ⟨scene.robot.inner, scene.raised⟩
  ⟨⟨after.robot⟩, after.raised⟩

/-- Passes a query on to the robot in the holder, and its reading back. -/
def sense (inner : Scene ρ → Int32 × Scene ρ) (scene : Scene (Held holder ρ)) :
    Int32 × Scene (Held holder ρ) :=
  let (reading, after) := inner ⟨scene.robot.inner, scene.raised⟩
  (reading, ⟨⟨after.robot⟩, after.raised⟩)

end Held

/-- A robot reached through a holder, which says of each call what it is passed on as. -/
def Robot.held {ρ : Type} (robot : Robot ρ) (holder : Holder) : Robot (Held holder ρ) where
  act
    | .moveStep => Held.act (robot.act .moveStep)
    | .turnLeft => Held.act (robot.act .turnLeft)
    | .turnRight => Held.act (robot.act .turnRight)
    | .takeFuel => Held.act (robot.act .takeFuel)
    | .idleWait => Held.act (robot.act .idleWait)
    | .turnAround => Held.act (robot.act .turnAround)
    | .setShield on => Held.act (robot.act (.setShield on))
  sense
    | .opponentFB => Held.sense (robot.sense .opponentFB)
    | .opponentLR => Held.sense (robot.sense .opponentLR)
    | .barrelFB rank => Held.sense (robot.sense (.barrelFB rank))
    | .barrelLR rank => Held.sense (robot.sense (.barrelLR rank))
    | .fuel => Held.sense (robot.sense .fuel)
    | .distanceToWall => Held.sense (robot.sense .distanceToWall)
    | .numBarrels => Held.sense (robot.sense .numBarrels)

/-- A robot in a stack of holders, the outermost first. -/
def Stacked : List Holder → Type → Type
  | [], ρ => ρ
  | holder :: rest, ρ => Held holder (Stacked rest ρ)

namespace Stacked

variable {ρ : Type}

/-- Puts a robot into its holders. -/
def wrap : (holders : List Holder) → ρ → Stacked holders ρ
  | [], robot => robot
  | _ :: rest, robot => ⟨wrap rest robot⟩

/-- The robot in the holders. -/
def unwrap : (holders : List Holder) → Stacked holders ρ → ρ
  | [], robot => robot
  | _ :: rest, held => unwrap rest held.inner

end Stacked

/-- A robot reached through a stack of holders. -/
def Robot.stacked {ρ : Type} (robot : Robot ρ) :
    (holders : List Holder) → Robot (Stacked holders ρ)
  | [] => robot
  | holder :: rest => (robot.stacked rest).held holder

end RobotScript
