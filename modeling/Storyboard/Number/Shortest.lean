/-
Storyboard/Number/Shortest.lean

The shortest decimal that reads back as a given double.

The reals that round to a double form an interval: from half-way to the
magnitude before it to half-way to the one after, the ends included when the
magnitude is even.  A finite double is a whole number of units of
`10 ^ -1074`, and so is each point of the grids `10 ^ j * 10 ^ -1074`; the
search walks these grids from coarse to fine and stops at the first where one
of the two neighbours of the value lies in the interval.  The finest grid holds
the value itself, so the search always ends, and since a coarser grid is part
of every finer one, the point it finds has no superfluous digit.

Where both neighbours lie in the interval the nearer one wins; `Tie` says what
happens to a value exactly half-way.
-/
import Storyboard.Number.Binary64

namespace Storyboard

/-- The decimal `digits * 10 ^ exponent`. -/
structure Decimal where
  digits : Nat
  exponent : Int
  deriving DecidableEq

/-- Which of two equally near neighbours is taken. -/
inductive Tie where
  | up
  | toEven
  deriving DecidableEq

namespace Binary64

/-! ### The interval of a double -/

/-- A unit of `2 ^ -1074` in units of `10 ^ -1074`. -/
def unitRatio : Nat := Nat.pow 5 1074

/-- The value in units of `10 ^ -1074`. -/
def decimalUnits (x : Binary64) : Nat := x.units * unitRatio

/-- Twice the lower end of the interval, in units of `10 ^ -1074`. -/
def lowerEnd (x : Binary64) : Nat :=
  (unitsOf (x.magnitude - 1) + x.units) * unitRatio

/-- Twice the upper end of the interval, in units of `10 ^ -1074`. -/
def upperEnd (x : Binary64) : Nat :=
  (x.units + unitsOf (x.magnitude + 1)) * unitRatio

/-- The point `c`, in units of `10 ^ -1074`, rounds to the magnitude of `x`. -/
def covers (x : Binary64) (c : Nat) : Bool :=
  if x.magnitude.val % 2 = 0 then x.lowerEnd ≤ 2 * c && 2 * c ≤ x.upperEnd
  else x.lowerEnd < 2 * c && 2 * c < x.upperEnd

/-! ### The search -/

/-- Of the neighbours `below` and `below + 1` on a grid of the given step, the
one nearer to `value`. -/
def nearerNeighbour (tie : Tie) (value step below : Nat) : Nat :=
  let past := 2 * (value - below * step)
  if past < step then below
  else if step < past then below + 1
  else match tie with
    | .up => below + 1
    | .toEven => if below % 2 = 0 then below else below + 1

/-- The neighbour of the value that the grid `10 ^ j` offers, if one of the two
lies in the interval. -/
def gridPoint (x : Binary64) (tie : Tie) (j : Nat) : Option Nat :=
  let step := Nat.pow 10 j
  let below := x.decimalUnits / step
  match x.covers (below * step), x.covers ((below + 1) * step) with
  | true, true => some (nearerNeighbour tie x.decimalUnits step below)
  | true, false => some below
  | false, true => some (below + 1)
  | false, false => none

/-- The point of the coarsest grid among `10 ^ j, …, 10 ^ 0` that has one. -/
def searchGrid (x : Binary64) (tie : Tie) : Nat → Nat × Nat
  | 0 => (x.decimalUnits, 0)
  | j + 1 =>
    match x.gridPoint tie (j + 1) with
    | some digits => (digits, j + 1)
    | none => x.searchGrid tie j

/-- A grid so coarse that its step exceeds the value: `2 ^ 93 < 10 ^ 28`. -/
def coarsestGrid (x : Binary64) : Nat :=
  (x.decimalUnits.log2 + 1) * 28 / 93 + 1

/-- The shortest decimal that reads back as the absolute value of `x`, a finite
number other than zero. -/
def shortest (x : Binary64) (tie : Tie) : Decimal :=
  let found := x.searchGrid tie x.coarsestGrid
  ⟨found.1, found.2 - 1074⟩

end Binary64

end Storyboard
