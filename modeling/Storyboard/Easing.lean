/-
Storyboard/Easing.lean

The easing curves that the storyboard renderer knows.

Storyboard lines and scripts hold the code of a curve; names are for people.
The curves are declared in the order of their codes, so a curve's code is its
place in the declaration, and `ofCode?` undoes `code` and knows the codes below
35 only.
-/
namespace Storyboard

/-- An easing curve. -/
inductive Easing where
  | linear
  | easeOut
  | easeIn
  | inQuad
  | outQuad
  | inOutQuad
  | inCubic
  | outCubic
  | inOutCubic
  | inQuart
  | outQuart
  | inOutQuart
  | inQuint
  | outQuint
  | inOutQuint
  | inSine
  | outSine
  | inOutSine
  | inExpo
  | outExpo
  | inOutExpo
  | inCirc
  | outCirc
  | inOutCirc
  | inElastic
  | outElastic
  | outElasticHalf
  | outElasticQuarter
  | inOutElastic
  | inBack
  | outBack
  | inOutBack
  | inBounce
  | outBounce
  | inOutBounce
  deriving DecidableEq

namespace Easing

/-- Every curve with its name, in the order of the codes. -/
def named : List (Easing × String) :=
  [(linear, "Linear"), (easeOut, "Out"), (easeIn, "In"),
   (inQuad, "InQuad"), (outQuad, "OutQuad"), (inOutQuad, "InOutQuad"),
   (inCubic, "InCubic"), (outCubic, "OutCubic"), (inOutCubic, "InOutCubic"),
   (inQuart, "InQuart"), (outQuart, "OutQuart"), (inOutQuart, "InOutQuart"),
   (inQuint, "InQuint"), (outQuint, "OutQuint"), (inOutQuint, "InOutQuint"),
   (inSine, "InSine"), (outSine, "OutSine"), (inOutSine, "InOutSine"),
   (inExpo, "InExpo"), (outExpo, "OutExpo"), (inOutExpo, "InOutExpo"),
   (inCirc, "InCirc"), (outCirc, "OutCirc"), (inOutCirc, "InOutCirc"),
   (inElastic, "InElastic"), (outElastic, "OutElastic"),
   (outElasticHalf, "OutElasticHalf"), (outElasticQuarter, "OutElasticQuarter"),
   (inOutElastic, "InOutElastic"),
   (inBack, "InBack"), (outBack, "OutBack"), (inOutBack, "InOutBack"),
   (inBounce, "InBounce"), (outBounce, "OutBounce"), (inOutBounce, "InOutBounce")]

/-- The numeric code of a curve. -/
def code (e : Easing) : Nat := e.ctorIdx

/-- The curve with a given code. -/
def ofCode? (code : Nat) : Option Easing := named[code]?.map Prod.fst

/-- The name of a curve among people. -/
def name (e : Easing) : String := (named.lookup e).getD ""

/-- What is said of a code that no curve has. -/
def unknownCode (code : Nat) : String :=
  "unknown easing code " ++ toString code ++ " (expected 0..=34)"

theorem ofCode?_code (e : Easing) : ofCode? e.code = some e := by
  cases e <;> rfl

theorem code_lt (e : Easing) : e.code < 35 := by
  cases e <;> decide

end Easing

end Storyboard
