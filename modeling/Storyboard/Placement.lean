/-
Storyboard/Placement.lean

Where a sprite is placed: the layer it is drawn on and the point of its image
that its position refers to.  Headers carry the numeric codes, scripts the
names; the constructors are declared in the order of the codes.
-/
namespace Storyboard

/-! ### Anchor points -/

/-- The point of an image that lies at its position. -/
inductive Origin where
  | centre
  | topLeft
  | topCentre
  | topRight
  | centreLeft
  | centreRight
  | bottomLeft
  | bottomCentre
  | bottomRight
  deriving DecidableEq

namespace Origin

/-- Every anchor point, in the order of the codes. -/
def all : List Origin :=
  [centre, topLeft, topCentre, topRight, centreLeft, centreRight,
   bottomLeft, bottomCentre, bottomRight]

/-- The code of an anchor point in headers. -/
def code (o : Origin) : Nat := o.ctorIdx

/-- Name used in scripts. -/
def name : Origin → String
  | centre => "Centre"
  | topLeft => "TopLeft"
  | topCentre => "TopCentre"
  | topRight => "TopRight"
  | centreLeft => "CentreLeft"
  | centreRight => "CentreRight"
  | bottomLeft => "BottomLeft"
  | bottomCentre => "BottomCentre"
  | bottomRight => "BottomRight"

theorem mem_all (o : Origin) : o ∈ all := by cases o <;> decide

end Origin

/-! ### Layers -/

/-- A layer of the storyboard, from the back to the front. -/
inductive Layer where
  /-- At the very back. -/
  | background
  /-- Seen by a player who is failing. -/
  | fail
  /-- Seen by a player who is passing. -/
  | pass
  /-- In front of the layers before it. -/
  | foreground
  /-- In front of the game itself. -/
  | overlay
  deriving DecidableEq

namespace Layer

/-- Every layer, in the order of the codes. -/
def all : List Layer := [background, fail, pass, foreground, overlay]

/-- The code of a layer in headers. -/
def code (l : Layer) : Nat := l.ctorIdx

/-- Name used in scripts. -/
def name : Layer → String
  | background => "Background"
  | fail => "Fail"
  | pass => "Pass"
  | foreground => "Foreground"
  | overlay => "Overlay"

theorem mem_all (l : Layer) : l ∈ all := by cases l <;> decide

end Layer

end Storyboard
