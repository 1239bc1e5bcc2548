/-
Storyboard/Script/Written.lean

Scripts and records as JSON.

Every member is written, the ones with their default value too, in the order in
which the reader's tables list them.
-/
import Storyboard.Json.Value
import Storyboard.Script.Document

namespace Storyboard

open Json (Value)

/-! ### Parts of a call -/

/-- A time. -/
def Ms.toJson (a : Ms) : Value := .integer a.toInt

/-- A color. -/
def Rgb.toJson (c : Rgb) : Value :=
  .object [("r", .integer c.r.toNat), ("g", .integer c.g.toNat), ("b", .integer c.b.toNat)]

/-- An easing curve, by its code. -/
def Easing.toJson (e : Easing) : Value := .integer e.code

/-- The members that hold the value of a setting. -/
def Setting.members : Setting → List (String × Value)
  | transparency t => [("transparency", .float t)]
  | position x y => [("x", .float x), ("y", .float y)]
  | size s => [("size", .float s)]
  | rotation r => [("rotation", .float r)]
  | color c => [("color", c.toJson)]

/-- The members that hold the goal of an animation. -/
def Animation.members : Animation → List (String × Value)
  | fadeIn => []
  | fadeOut => []
  | towards s => s.members
  | parameter f => [("flag", .text f.name)]

/-! ### Calls -/

/-- The members of an action; a bare name has none. -/
def Action.members? : Action → Option (List (String × Value))
  | animate a duration easing =>
    some (("duration", duration.toJson) :: (a.members ++ [("easing", easing.toJson)]))
  | bracket (.startLoop count) => some [("count", .integer count.toNat)]
  | bracket _ => none
  | sleep duration => some [("duration", duration.toJson)]
  | setTime ms => some [("ms", ms.toJson)]
  | assign s => some s.members

/-- The members of a call; a bare name has none. -/
def Call.members? : Call → Option (List (String × Value))
  | act a => a.members?
  | setLayer layer => some [("layer", .text layer.name)]
  | applyEffect effect count => some [("effect", .text effect), ("count", .integer count.toNat)]

/-- A call is its name, or an object with the name as its only member. -/
def Call.toJson (c : Call) : Value :=
  match c.members? with
  | some members => .object [(c.name, .object members)]
  | none => .text c.name

/-! ### Documents -/

/-- An effect. -/
def EffectScript.toJson (e : EffectScript) : Value :=
  .object [("name", .text e.name), ("calls", .list (e.calls.map Call.toJson))]

/-- A sprite. -/
def SpriteScript.toJson (s : SpriteScript) : Value :=
  .object
    [("image", .text s.placement.image),
     ("start_ms", s.placement.startMs.toJson),
     ("origin", .text s.placement.origin.name),
     ("layer", .text s.placement.layer.name),
     ("x", .float s.placement.x),
     ("y", .float s.placement.y),
     ("calls", .list (s.calls.map Call.toJson))]

/-- A script. -/
def Document.toJson (d : Document) : Value :=
  .object
    [("effects", .list (d.effects.map EffectScript.toJson)),
     ("sprites", .list (d.sprites.map SpriteScript.toJson))]

/-! ### Records -/

/-- A parameter, by its kind. -/
def Param.toJson : Param → Value
  | number x => .object [("Num", .float x)]
  | integer i => .object [("Int", i.toJson)]
  | flag f => .object [("Flag", .text f.name)]

/-- A record, by its kind. -/
def Record.toJson : Record → Value
  | header layer origin image x y =>
    .object [("Header", .object
      [("layer", .text layer.name),
       ("origin", .text origin.name),
       ("image", .text image),
       ("x", .float x),
       ("y", .float y)])]
  | command scope opcode easing start finish params =>
    .object [("Command", .object
      [("prefix", .text scope.name),
       ("opcode", .text opcode.name),
       ("easing", easing.toJson),
       ("start_ms", start.toJson),
       ("end_ms", finish.toJson),
       ("params", .list (params.map Param.toJson))])]
  | marker start count =>
    .object [("LoopMarker", .object
      [("start_ms", start.toJson), ("repeat_count", .integer count.toNat)])]

end Storyboard
