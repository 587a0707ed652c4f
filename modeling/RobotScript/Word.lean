/-!
# Reserved words

The words a script is written with come in five families: actions, sensors,
arithmetic operators, comparisons and combinators.

* `Word` is what a family has: its name, its words in order, and for each word the
  spelling used in scripts and the tag used in the JSON form.
* `Word.ofSpelling?` finds the word with a given spelling, `Word.ofTag?` the one
  with a given tag.
-/

namespace RobotScript

/-- A family of reserved words. -/
class Word (α : Type) where
  family : String
  all : List α
  spelling : α → String
  tag : α → String

namespace Word

variable {α : Type} [Word α]

/-- The word of the family that is spelled `s`. -/
def ofSpelling? (s : String) : Option α := all.find? fun w => spelling w == s

/-- The word of the family whose tag is `s`. -/
def ofTag? (s : String) : Option α := all.find? fun w => tag w == s

end Word

/-- What a script can tell the robot to do. -/
inductive Action
  | move
  | turnL
  | turnR
  | takeFuel
  | wait
  | turnAround
  | shieldOn
  | shieldOff
deriving DecidableEq

/-- What a script can ask the robot. -/
inductive Sensor
  | fuelLeft
  | oppLR
  | oppFB
  | numBarrels
  | barrelLR
  | barrelFB
  | wallDist
deriving DecidableEq

inductive ArithOp
  | add
  | sub
  | mul
  | div
deriving DecidableEq

inductive Relop
  | lt
  | gt
  | eq
deriving DecidableEq

inductive Combinator
  | and
  | or
  | not
deriving DecidableEq

instance : Word Action where
  family := "action"
  all := [.move, .turnL, .turnR, .takeFuel, .wait, .turnAround, .shieldOn, .shieldOff]
  spelling
    | .move => "move"
    | .turnL => "turnL"
    | .turnR => "turnR"
    | .takeFuel => "takeFuel"
    | .wait => "wait"
    | .turnAround => "turnAround"
    | .shieldOn => "shieldOn"
    | .shieldOff => "shieldOff"
  tag
    | .move => "Move"
    | .turnL => "TurnL"
    | .turnR => "TurnR"
    | .takeFuel => "TakeFuel"
    | .wait => "Wait"
    | .turnAround => "TurnAround"
    | .shieldOn => "ShieldOn"
    | .shieldOff => "ShieldOff"

instance : Word Sensor where
  family := "sensor"
  all := [.fuelLeft, .oppLR, .oppFB, .numBarrels, .barrelLR, .barrelFB, .wallDist]
  spelling
    | .fuelLeft => "fuelLeft"
    | .oppLR => "oppLR"
    | .oppFB => "oppFB"
    | .numBarrels => "numBarrels"
    | .barrelLR => "barrelLR"
    | .barrelFB => "barrelFB"
    | .wallDist => "wallDist"
  tag
    | .fuelLeft => "FuelLeft"
    | .oppLR => "OppLR"
    | .oppFB => "OppFB"
    | .numBarrels => "NumBarrels"
    | .barrelLR => "BarrelLR"
    | .barrelFB => "BarrelFB"
    | .wallDist => "WallDist"

instance : Word ArithOp where
  family := "operator"
  all := [.add, .sub, .mul, .div]
  spelling
    | .add => "add"
    | .sub => "sub"
    | .mul => "mul"
    | .div => "div"
  tag
    | .add => "Add"
    | .sub => "Sub"
    | .mul => "Mul"
    | .div => "Div"

instance : Word Relop where
  family := "relop"
  all := [.lt, .gt, .eq]
  spelling
    | .lt => "lt"
    | .gt => "gt"
    | .eq => "eq"
  tag
    | .lt => "Lt"
    | .gt => "Gt"
    | .eq => "Eq"

instance : Word Combinator where
  family := "combinator"
  all := [.and, .or, .not]
  spelling
    | .and => "and"
    | .or => "or"
    | .not => "not"
  tag
    | .and => "And"
    | .or => "Or"
    | .not => "Not"

/-- The actions that may be followed by a repeat count. -/
def Action.takesCount : Action → Bool
  | .move | .wait => true
  | _ => false

/-- The sensors that may be followed by a barrel rank. -/
def Sensor.takesRank : Sensor → Bool
  | .barrelLR | .barrelFB => true
  | _ => false

end RobotScript
