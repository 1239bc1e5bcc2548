/-
Storyboard/Pose.lean

What a sprite or effect looks like between two animations, channel by channel.

An animation leads from the pose to its target, and the target is the pose that
the next one finds, so animations on one channel continue one another.  A `Setting` is a value for
one channel; writing it changes that channel and no other.
-/
import Storyboard.Record

namespace Storyboard

/-- The animated properties that have a current value. -/
inductive Channel where
  | transparency
  | position
  | size
  | rotation
  | color
  deriving DecidableEq

namespace Channel

/-- The command that animates a channel. -/
def opcode : Channel → Opcode
  | transparency => .fade
  | position => .move
  | size => .scale
  | rotation => .rotate
  | color => .color

end Channel

/-- A value for one channel. -/
inductive Setting where
  | transparency (value : Binary64)
  | position (x y : Binary64)
  | size (value : Binary64)
  /-- Radians. -/
  | rotation (value : Binary64)
  | color (value : Rgb)
  deriving DecidableEq

namespace Setting

/-- The channel a setting belongs to. -/
def channel : Setting → Channel
  | transparency _ => .transparency
  | position _ _ => .position
  | size _ => .size
  | rotation _ => .rotation
  | color _ => .color

/-- The value of a setting as command parameters. -/
def params : Setting → List Param
  | transparency t => [.number t]
  | position x y => [.number x, .number y]
  | size s => [.number s]
  | rotation r => [.number r]
  | color c => [.byte c.r, .byte c.g, .byte c.b]

end Setting

/-- The current value of every channel. -/
structure Pose where
  x : Binary64
  y : Binary64
  size : Binary64
  transparency : Binary64
  rotation : Binary64
  color : Rgb
  deriving DecidableEq

namespace Pose

/-- Horizontal centre of the 640 by 480 field. -/
def centreX : Binary64 := .ofNat 320

/-- Vertical centre of the 640 by 480 field. -/
def centreY : Binary64 := .ofNat 240

/-- The first pose at a position: full size, transparency zero, upright,
untinted. -/
def placedAt (x y : Binary64) : Pose :=
  ⟨x, y, .ofNat 1, .ofNat 0, .ofNat 0, .white⟩

/-- The first pose at the centre of the field. -/
def initial : Pose := .placedAt centreX centreY

/-- The current value of a channel. -/
def get (p : Pose) : Channel → Setting
  | .transparency => .transparency p.transparency
  | .position => .position p.x p.y
  | .size => .size p.size
  | .rotation => .rotation p.rotation
  | .color => .color p.color

/-- The pose with one channel changed. -/
def set (p : Pose) : Setting → Pose
  | .transparency t => { p with transparency := t }
  | .position x y => { p with x := x, y := y }
  | .size s => { p with size := s }
  | .rotation r => { p with rotation := r }
  | .color c => { p with color := c }

/-- The parameters of a command from the current value to another one. -/
def pathTo (p : Pose) (s : Setting) : List Param := (p.get s.channel).params ++ s.params

@[simp] theorem channel_get (p : Pose) (c : Channel) : (p.get c).channel = c := by
  cases c <;> rfl

@[simp] theorem get_set_self (p : Pose) (s : Setting) :
    (p.set s).get s.channel = s := by
  cases s <;> rfl

theorem get_set_of_ne (p : Pose) {s : Setting} {c : Channel} (h : s.channel ≠ c) :
    (p.set s).get c = p.get c := by
  cases s <;> cases c <;> simp_all [Setting.channel, set, get]

end Pose

end Storyboard
