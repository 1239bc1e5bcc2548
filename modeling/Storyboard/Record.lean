/-
Storyboard/Record.lean

The lines of a storyboard document.

A sprite's chain begins with a header; every later line is a timed command or
the marker that opens a loop.  A command is indented by one underscore, and by
two where its times count from the loop marker above it (`Scope`).  A line
lists its fields separated by commas and escapes nothing: an image name stands
between quotes as it is.
-/
import Storyboard.Easing
import Storyboard.Number.Plain
import Storyboard.Placement
import Storyboard.Time

namespace Storyboard

/-! ### Parameters -/

/-- A color of eight bits per channel. -/
structure Rgb where
  r : UInt8
  g : UInt8
  b : UInt8
  deriving DecidableEq

namespace Rgb

/-- The color of an untinted image. -/
def white : Rgb := ⟨255, 255, 255⟩

end Rgb

/-- What a parameter command switches on while it lasts. -/
inductive Flag where
  /-- Left and right change places. -/
  | flipHorizontal
  /-- Top and bottom change places. -/
  | flipVertical
  /-- Colors add up with what is behind. -/
  | additive
  deriving DecidableEq

namespace Flag

/-- Every flag. -/
def all : List Flag := [flipHorizontal, flipVertical, additive]

/-- Letter written into commands. -/
def letter : Flag → String
  | flipHorizontal => "H"
  | flipVertical => "V"
  | additive => "A"

/-- Name used in scripts. -/
def name : Flag → String
  | flipHorizontal => "FlipHorizontal"
  | flipVertical => "FlipVertical"
  | additive => "Additive"

theorem mem_all (f : Flag) : f ∈ all := by cases f <;> decide

end Flag

/-- A parameter of a command. -/
inductive Param where
  | number (x : Binary64)
  | integer (i : Ms)
  | flag (f : Flag)
  deriving DecidableEq

namespace Param

/-- The integer parameter of a byte. -/
def byte (b : UInt8) : Param := .integer (.clamp b.toNat)

/-- The text of a parameter. -/
def text : Param → String
  | number x => x.text
  | integer i => i.text
  | flag f => f.letter

end Param

/-! ### Commands -/

/-- What a command animates. -/
inductive Opcode where
  /-- Transparency. -/
  | fade
  /-- Position. -/
  | move
  /-- Uniform scale. -/
  | scale
  /-- Rotation in radians. -/
  | rotate
  /-- Tint. -/
  | color
  /-- Flip or blend flag. -/
  | parameter
  deriving DecidableEq

namespace Opcode

/-- Every opcode. -/
def all : List Opcode := [fade, move, scale, rotate, color, parameter]

/-- Letter written into commands. -/
def letter : Opcode → String
  | fade => "F"
  | move => "M"
  | scale => "S"
  | rotate => "R"
  | color => "C"
  | parameter => "P"

/-- Name used in data formats. -/
def name : Opcode → String
  | fade => "Fade"
  | move => "Move"
  | scale => "Scale"
  | rotate => "Rotate"
  | color => "Color"
  | parameter => "Parameter"

end Opcode

/-- What the times of a command count from: the start of the storyboard, or the
loop marker above the command. -/
inductive Scope where
  | top
  | loop
  deriving DecidableEq

namespace Scope

/-- The indentation of a command. -/
def indent : Scope → String
  | top => "_"
  | loop => "__"

/-- Name used in data formats. -/
def name : Scope → String
  | top => "Top"
  | loop => "Loop"

end Scope

/-! ### Records -/

/-- A line of a storyboard document. -/
inductive Record where
  /-- The declaration of a sprite. -/
  | header (layer : Layer) (origin : Origin) (image : String) (x y : Binary64)
  /-- A timed command. -/
  | command (scope : Scope) (opcode : Opcode) (easing : Easing) (start finish : Ms)
      (params : List Param)
  /-- The lines of loop scope that follow are played `count` times from here. -/
  | marker (start : Ms) (count : UInt32)
  deriving DecidableEq

namespace Record

/-- Each parameter with the comma before it. -/
def tailText (params : List Param) : String :=
  String.join (params.map fun p => "," ++ p.text)

/-- The line of a record. -/
def line : Record → String
  | header layer origin image x y =>
    "Sprite," ++ toString layer.code ++ "," ++ toString origin.code ++ ",\"" ++ image ++
      "\"," ++ x.text ++ "," ++ y.text
  | command scope opcode easing start finish params =>
    scope.indent ++ opcode.letter ++ "," ++ toString easing.code ++ "," ++ start.text ++
      "," ++ finish.text ++ tailText params
  | marker start count => "_L," ++ start.text ++ "," ++ toString count.toNat

end Record

end Storyboard
