/-
Storyboard/Number/Plain.lean

Numbers as they stand in a storyboard line: the shortest decimal, written
without an exponent, without a superfluous zero, and with a point only before
a fraction.  Both zeros are `0`.
-/
import Storyboard.Number.Shortest

namespace Storyboard

namespace Decimal

/-- Positional notation: zeros after the digits of a large number, a point
inside or before the digits of one with a fraction. -/
def plain (d : Decimal) : List Char :=
  let digits := Nat.toDigits 10 d.digits
  match d.exponent with
  | .ofNat zeros => digits ++ List.replicate zeros '0'
  | .negSucc n =>
    let padded := List.replicate (n + 2 - digits.length) '0' ++ digits
    let whole := padded.length - (n + 1)
    padded.take whole ++ '.' :: padded.drop whole

end Decimal

namespace Binary64

/-- The sign of a negative number. -/
def signText (x : Binary64) : String := if x.negative then "-" else ""

/-- The text of a number with the sign of zero kept. -/
def signedText (x : Binary64) : String :=
  if x.isNaN then "NaN"
  else x.signText ++
    if x.isInfinite then "inf"
    else if x.isZero then "0"
    else String.ofList (x.shortest .up).plain

/-- The text of a number in a storyboard line. -/
def text (x : Binary64) : String :=
  if x.isZero then "0" else x.signedText

end Binary64

end Storyboard
