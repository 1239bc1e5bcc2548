/-
Storyboard/Number/Binary64.lean

Double-precision numbers as data: a sign and the 63 bits below it.

Every finite double is a whole number of units of `2 ^ -1074`, so its exact
value is a natural number (`units`) and a sign.  The bits below the sign,
read as one number (the *magnitude*), count the non-negative doubles in
order: `unitsOf` is increasing in the magnitude, and the magnitude after the
largest finite one, which stands for infinity, is where `2 ^ 1024` would be.
Rounding is therefore one definition (`nearestMagnitude`): find the binade,
divide, let ties go to even, and stop at infinity.

Products and quotients are the exact ones, rounded once.
-/
namespace Storyboard

/-- The value of the sign bit, `2 ^ 63`.  Magnitudes lie below it. -/
abbrev Binary64.signBit : Nat := 0x8000000000000000

/-- How many magnitudes share an exponent: `2 ^ 52`. -/
abbrev Binary64.binade : Nat := 0x10000000000000

/-- A double-precision number: its sign and the other 63 bits, exponent above
fraction, read as one number. -/
structure Binary64 where
  negative : Bool
  magnitude : Fin Binary64.signBit
  deriving DecidableEq

namespace Binary64

/-! ### Bits and classes -/

/-- The magnitude of the infinities; those above it are not numbers. -/
def infinity : Nat := 2047 * binade

/-- The number with these 64 bits (higher bits are dropped). -/
def ofBits (bits : Nat) : Binary64 :=
  ⟨bits / signBit % 2 == 1, ⟨bits % signBit, Nat.mod_lt _ (by decide)⟩⟩

/-- The 64 bits of a number. -/
def toBits (x : Binary64) : Nat :=
  (if x.negative then signBit else 0) + x.magnitude

/-- Neither infinite nor "not a number". -/
def isFinite (x : Binary64) : Bool := x.magnitude.val < infinity

/-- One of the two infinities. -/
def isInfinite (x : Binary64) : Bool := x.magnitude.val == infinity

/-- No number at all. -/
def isNaN (x : Binary64) : Bool := infinity < x.magnitude.val

/-- Either zero. -/
def isZero (x : Binary64) : Bool := x.magnitude.val == 0

/-- The same number with the other sign. -/
def neg (x : Binary64) : Binary64 := ⟨!x.negative, x.magnitude⟩

/-! ### Exact values -/

/-- The value of a magnitude in units of `2 ^ -1074`.  Below `2 ^ 53` the two
are equal; above, each binade doubles the step. -/
def unitsOf (magnitude : Nat) : Nat :=
  if magnitude < binade then magnitude
  else (binade + magnitude % binade) <<< (magnitude / binade - 1)

/-- The absolute value of a finite number in units of `2 ^ -1074`. -/
def units (x : Binary64) : Nat := unitsOf x.magnitude

/-! ### Rounding -/

/-- `num / den` rounded to a whole number, a half going to the even neighbour. -/
def roundHalfEven (num den : Nat) : Nat :=
  let quotient := num / den
  let twice := 2 * (num % den)
  if den < twice ∨ (twice = den ∧ quotient % 2 = 1) then quotient + 1 else quotient

/-- The magnitude nearest to `num / den`, ties to even.  The value in units
fixes the binade, hence how many low bits are rounded away; a carry out of the
fraction is the first magnitude of the next binade, and all that is too large
is infinity. -/
def nearestMagnitude (num den : Nat) : Nat :=
  let scaled := num <<< 1074
  let drop := (scaled / den).log2 - 52
  min infinity (drop * binade + roundHalfEven scaled (den <<< drop))

/-- Infinity is a magnitude, so no rounded magnitude leaves the 63 bits. -/
theorem nearestMagnitude_lt (num den : Nat) : nearestMagnitude num den < signBit :=
  Nat.lt_of_le_of_lt (Nat.min_le_left _ _) (by decide)

/-- The double nearest to `num / den`, with the given sign. -/
def ofRatio (negative : Bool) (num den : Nat) : Binary64 :=
  ⟨negative, ⟨nearestMagnitude num den, nearestMagnitude_lt num den⟩⟩

/-- The double nearest to a whole number. -/
def ofNat (n : Nat) : Binary64 := ofRatio false n 1

instance : Inhabited Binary64 := ⟨ofNat 0⟩

/-- The product of two finite numbers, rounded. -/
def mul (x y : Binary64) : Binary64 :=
  ofRatio (x.negative != y.negative) (x.units * y.units) (1 <<< 2148)

/-- The quotient of two finite numbers, the second not zero, rounded. -/
def div (x y : Binary64) : Binary64 :=
  ofRatio (x.negative != y.negative) x.units y.units

/-- The double nearest to a power of ten. -/
def tenPow (exponent : Nat) : Binary64 := ofNat (Nat.pow 10 exponent)

end Binary64

end Storyboard
