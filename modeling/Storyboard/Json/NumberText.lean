/-
Storyboard/Json/NumberText.lean

Numbers as JSON text: the shortest decimal, always with a point or an exponent.

Values from `10 ^ -5` up to `10 ^ 16` are written out, all others with one digit
before the point and a signed exponent.  The sign of zero is kept; what is not
finite has no JSON number and is written as `null`.
-/
import Storyboard.Number.Plain

namespace Storyboard

namespace Decimal

/-- The decimal in JSON notation.  `point` is where the point belongs, counted
in digits from the first one. -/
def jsonText (d : Decimal) : List Char :=
  let digits := Nat.toDigits 10 d.digits
  let point : Int := digits.length + d.exponent
  if 0 < point ∧ point ≤ 16 then
    if 0 ≤ d.exponent then digits ++ List.replicate d.exponent.toNat '0' ++ ['.', '0']
    else digits.take point.toNat ++ '.' :: digits.drop point.toNat
  else if -5 < point ∧ point ≤ 0 then
    '0' :: '.' :: (List.replicate (-point).toNat '0' ++ digits)
  else
    let fraction := if digits.length = 1 then [] else '.' :: digits.drop 1
    let sign := if 0 < point then '+' else '-'
    digits.take 1 ++ fraction ++ 'e' :: sign :: Nat.toDigits 10 (point - 1).natAbs

end Decimal

namespace Binary64

/-- The JSON text of a number. -/
def jsonText (x : Binary64) : String :=
  if !x.isFinite then "null"
  else x.signText ++
    if x.isZero then "0.0"
    else String.ofList (x.shortest .toEven).jsonText

end Binary64

end Storyboard
