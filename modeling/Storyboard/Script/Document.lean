/-
Storyboard/Script/Document.lean

Storyboard scripts as data.

A script defines effects by name and sprites in order, each with the calls that
build it.  A call is an action that effects and sprites share, or one of the two
that only sprites understand; which effect a sprite plays is a name, looked up
when the script is carried out.

Documents are merged by writing them one after the other.
-/
import Storyboard.Sprite

namespace Storyboard

/-- One call of a script. -/
inductive Call where
  | act (a : Action)
  /-- Sprites only. -/
  | setLayer (layer : Layer)
  /-- Sprites only. -/
  | applyEffect (effect : String) (count : UInt32)
  deriving DecidableEq

/-- A named effect. -/
structure EffectScript where
  name : String
  calls : List Call := []
  deriving DecidableEq

/-- A sprite with the calls that follow its construction. -/
structure SpriteScript where
  placement : Placement
  calls : List Call := []
  deriving DecidableEq

/-- A storyboard script. -/
structure Document where
  effects : List EffectScript := []
  sprites : List SpriteScript := []
  deriving DecidableEq

/-! ### Names of calls -/

/-- The name of an animation in scripts. -/
def Animation.name : Animation → String
  | fadeIn => "fade_in"
  | fadeOut => "fade_out"
  | towards (.transparency _) => "fade"
  | towards (.position _ _) => "move_to"
  | towards (.size _) => "resize"
  | towards (.rotation _) => "rotate"
  | towards (.color _) => "color"
  | parameter _ => "parameter"

/-- The name of a bracket in scripts. -/
def Bracket.name : Bracket → String
  | startLoop _ => "start_loop"
  | endLoop => "end_loop"
  | startBatch => "start_batch"
  | endBatch => "end_batch"

/-- The name of an assignment in scripts. -/
def Setting.assignName : Setting → String
  | transparency _ => "set_transparency"
  | position _ _ => "set_position"
  | size _ => "set_size"
  | rotation _ => "set_rotation"
  | color _ => "set_color"

/-- The name of an action in scripts. -/
def Action.name : Action → String
  | animate a _ _ => a.name
  | bracket b => b.name
  | sleep _ => "sleep"
  | setTime _ => "set_time"
  | assign s => s.assignName

/-- The name of a call in scripts. -/
def Call.name : Call → String
  | act a => a.name
  | setLayer _ => "set_layer"
  | applyEffect _ _ => "apply_effect"

/-! ### Merging -/

/-- The documents one after the other. -/
def Document.merge (docs : List Document) : Document where
  effects := docs.flatMap Document.effects
  sprites := docs.flatMap Document.sprites

end Storyboard
