/-
Storyboard/Board.lean

The sprites of a storyboard, in the order in which they were added.

A sprite's number is its place in this order.  Sprites stay where they are, so
the number of the next one is the number of sprites there are.
-/
import Storyboard.Sprite

namespace Storyboard

/-- The sprites of a storyboard. -/
structure Board where
  sprites : Array Sprite := #[]
  deriving DecidableEq

namespace Board

/-- A storyboard without sprites. -/
def empty : Board := {}

/-- How many sprites there are. -/
def size (b : Board) : Nat := b.sprites.size

/-- The number that the next sprite will get. -/
def nextId (b : Board) : Nat := b.size

/-- The sprites in order. -/
def toList (b : Board) : List Sprite := b.sprites.toList

/-- The sprite with a given number. -/
def get? (b : Board) (id : Nat) : Option Sprite := b.sprites[id]?

/-- Register a sprite that is already built. -/
def add (b : Board) (s : Sprite) : Board := ⟨b.sprites.push s⟩

/-- Build a sprite and register it. -/
def place (b : Board) (p : Placement) : Board := b.add p.build

/-- Change the sprite with a given number; without such a sprite, nothing. -/
def modify (b : Board) (id : Nat) (f : Sprite → Sprite) : Board := ⟨b.sprites.modify id f⟩

/-- The number of records in all chains. -/
def recordCount (b : Board) : Nat := (b.toList.flatMap Sprite.records).length

/-! ### Numbering -/

@[simp] theorem toList_add (b : Board) (s : Sprite) : (b.add s).toList = b.toList ++ [s] := by
  simp [add, toList]

/-- Changing one sprite leaves the others as they are. -/
theorem get?_modify (b : Board) (id i : Nat) (f : Sprite → Sprite) :
    (b.modify id f).get? i = if id = i then (b.get? i).map f else b.get? i :=
  Array.getElem?_modify

end Board

end Storyboard
