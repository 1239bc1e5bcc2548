/-
Storyboard/Json/Numbers.lean

Reading JSON numbers.

A number without point and exponent is whole, if it fits 64 bits.  Every other
number becomes a double, by steps that are fixed but not exact: the digits that
fit an unsigned 64-bit number make the significand, later ones only count, and
the significand is then multiplied or divided by a power of ten, each step
rounded.
-/
import Storyboard.Json.Strings

namespace Storyboard

namespace Json

/-! ### Values -/

/-- A number as it was read. -/
inductive Number where
  /-- A whole number without a sign, below `2 ^ 64`. -/
  | natural (n : Nat)
  /-- A whole number after a minus sign, not below `-2 ^ 63`. -/
  | negative (i : Int)
  | float (x : Binary64)
  deriving DecidableEq

namespace Number

/-- How a fault speaks of a number. -/
def found : Number → Found
  | natural n => .integer n
  | negative i => .integer i
  | float x => .float x

/-- The double nearest to a number. -/
def toFloat : Number → Binary64
  | natural n => .ofNat n
  | negative i => .ofRatio true i.natAbs 1
  | float x => x

/-- The number of digits without point and exponent. -/
def ofWhole (negative : Bool) (n : Nat) : Number :=
  if !negative then .natural n
  else if 0 < n ∧ n ≤ 0x8000000000000000 then .negative (-n)
  else .float (.ofRatio true n 1)

end Number

/-- A sign before the value of a double. -/
def signed (negative : Bool) (x : Binary64) : Binary64 := if negative then x.neg else x

/-! ### Digits -/

/-- The largest significand, `2 ^ 64 - 1`. -/
def maxSignificand : Nat := 0xffffffffffffffff

/-- The largest exponent, `2 ^ 31 - 1`. -/
def maxExponent : Nat := 0x7fffffff

/-- Append digits to a number as long as it does not exceed a bound; the digits
from the first that would are left. -/
def absorb (bound : Nat) : Nat → List UInt8 → Nat × List UInt8
  | n, [] => (n, [])
  | n, d :: rest =>
    if 10 * n + digitValue d ≤ bound then absorb bound (10 * n + digitValue d) rest
    else (n, d :: rest)

/-- An exponent, kept in the range of signed 32-bit numbers. -/
def clampExponent (i : Int) : Int := max (-0x80000000) (min i 0x7fffffff)

/-! ### Scaling -/

/-- A double divided by a power of ten.  Powers that are no doubles are divided
out in steps, until nothing is left of the number. -/
def scaleDown (x : Binary64) (exponent : Nat) : Binary64 :=
  if exponent ≤ 308 then x.div (.tenPow exponent)
  else if x.isZero then x
  else scaleDown (x.div (.tenPow 308)) (exponent - 308)
termination_by exponent

/-- A double multiplied by a power of ten, unless that is too large. -/
def scaleUp (x : Binary64) (exponent : Nat) : Option Binary64 :=
  if exponent ≤ 308 then
    let scaled := x.mul (.tenPow exponent)
    if scaled.isInfinite then none else some scaled
  else if x.isZero then some x
  else none

/-- The double of a significand and a power of ten, unless that is too large. -/
def fromParts (significand : Nat) (exponent : Int) : Option Binary64 :=
  match exponent with
  | .ofNat n => scaleUp (.ofNat significand) n
  | .negSucc n => some (scaleDown (.ofNat significand) (n + 1))

namespace Reader

/-! ### Parts of a number -/

/-- A run of digits, and a look at the byte after it. -/
def digits : Reader (List UInt8) := do
  let found ← run isDigit
  let _ ← peek
  pure found

/-- The digits that come next, which stay unread. -/
def digitsAhead : Reader (List UInt8) := fun i => .ok (i.rest.takeWhile isDigit) i

/-- The digits before the point.  A number that begins with zero has no other. -/
def wholeDigits : Reader (List UInt8) := do
  match ← next with
  | none => failHere .endInValue
  | some b =>
    if !isDigit b then failHere .invalidNumber
    else if b = zeroDigit then do
      match ← peek with
      | some c => if isDigit c then failNext .invalidNumber else pure [b]
      | none => pure [b]
    else do
      let rest ← digits
      pure (b :: rest)

/-- A double from its parts. -/
def assemble (negative : Bool) (significand : Nat) (exponent : Int) : Reader Number :=
  match fromParts significand exponent with
  | some x => pure (.float (signed negative x))
  | none => failHere .numberOutOfRange

/-- The sign of an exponent: whether it is a minus. -/
def exponentSign : Reader Bool := do
  match ← peek with
  | some b =>
    if b = plus then do
      skip 1
      pure false
    else if b = minus then do
      skip 1
      pure true
    else pure false
  | none => pure false

/-- The first digit of an exponent. -/
def exponentDigit : Reader UInt8 := do
  match ← next with
  | none => failHere .endInValue
  | some b => if isDigit b then pure b else failHere .invalidNumber

/-- An exponent, after the letter, and the number that it completes.  Of an
exponent beyond all bounds only its sign matters. -/
def withExponent (negative : Bool) (significand : Nat) (shift : Int) : Reader Number := do
  let down ← exponentSign
  let first ← exponentDigit
  let rest ← digitsAhead
  match absorb maxExponent (digitValue first) rest with
  | (n, []) =>
    skip rest.length
    let _ ← peek
    let exponent : Int := if down then shift - n else shift + n
    assemble negative significand (clampExponent exponent)
  | (_, beyond) =>
    if significand ≠ 0 ∧ !down then do
      skip (rest.length - beyond.length + 1)
      failHere .numberOutOfRange
    else do
      skip rest.length
      let _ ← peek
      pure (.float (signed negative (.ofNat 0)))

/-- The end of a number whose significand has been read. -/
def afterSignificand (negative : Bool) (significand : Nat) (shift : Int) : Reader Number := do
  match ← peek with
  | some b =>
    if isExponentMark b then do
      skip 1
      withExponent negative significand shift
    else assemble negative significand shift
  | none => assemble negative significand shift

/-- The fraction, after the point, and the number that it completes. -/
def withFraction (negative : Bool) (significand : Nat) (shift : Int) : Reader Number := do
  let fraction ← digits
  if fraction.isEmpty then do
    match ← peek with
    | some _ => failNext .invalidNumber
    | none => failNext .endInValue
  else
    let (significand, beyond) := absorb maxSignificand significand fraction
    afterSignificand negative significand (shift - (fraction.length - beyond.length : Nat))

/-! ### Numbers -/

/-- A number after its sign. -/
def numberRest (negative : Bool) : Reader Number := do
  let whole ← wholeDigits
  let (significand, beyond) := absorb maxSignificand 0 whole
  let shift : Int := beyond.length
  match ← peek with
  | some b =>
    if b = point then do
      skip 1
      withFraction negative significand shift
    else if isExponentMark b then do
      skip 1
      withExponent negative significand shift
    else ending significand beyond
  | none => ending significand beyond
where
  /-- A number of digits only. -/
  ending (significand : Nat) (beyond : List UInt8) : Reader Number :=
    if beyond.isEmpty then pure (.ofWhole negative significand)
    else assemble negative significand beyond.length

/-- A number whose first byte was looked at. -/
def number (first : UInt8) : Reader Number :=
  if first = minus then do
    skip 1
    numberRest true
  else numberRest false

end Reader

end Json

end Storyboard
