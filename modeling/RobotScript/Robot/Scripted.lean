import RobotScript.Robot

/-!
# Scripted robots

A robot for trying out programs. Its readings come from a list given beforehand; once
that is used up they follow from a few fixed values and the fuel, which moving uses and
taking fuel adds to. It can raise the stop signal at a call chosen beforehand.
-/

namespace RobotScript

/-- The state of a scripted robot; `calls` counts the calls it has had. -/
structure Scripted where
  fuel : Int32 := 0
  take : Int32 := 0
  wall : Int32 := 0
  barrels : Int32 := 0
  oppFB : Int32 := 0
  oppLR : Int32 := 0
  script : List Int32 := []
  stopAfter : Option Nat := none
  calls : Nat := 0

namespace Scripted

/-- A robot whose stop signal is not the one that is watched. -/
def detached (robot : Scripted) : Scripted := { robot with stopAfter := none }

/-- Counts a call, and raises the signal if it is the chosen one. -/
def count (scene : Scene Scripted) : Scene Scripted :=
  let calls := scene.robot.calls + 1
  ⟨{ scene.robot with calls }, scene.raised || scene.robot.stopAfter == some calls⟩

/-- What is read when the script is used up. -/
def reading (robot : Scripted) : Query → Int32
  | .opponentFB => robot.oppFB
  | .opponentLR => robot.oppLR
  | .barrelFB rank => rank
  | .barrelLR rank => -rank
  | .fuel => robot.fuel
  | .distanceToWall => robot.wall
  | .numBarrels => robot.barrels

def perform (robot : Scripted) : Deed → Scripted
  | .moveStep => { robot with fuel := robot.fuel - 1 }
  | .takeFuel => { robot with fuel := robot.fuel + robot.take }
  | _ => robot

def robot : Robot Scripted where
  act deed scene :=
    let scene := count scene
    { scene with robot := scene.robot.perform deed }
  sense query scene :=
    let scene := count scene
    match scene.robot.script with
    | [] => (scene.robot.reading query, scene)
    | value :: script => (value, { scene with robot := { scene.robot with script } })

end Scripted

end RobotScript
