/-
Storyboard/Json/Skipping.lean

Passing over a value that nobody asked for.

Any JSON value is passed over, however deep: the brackets that are open are kept
on a stack, so depth costs no recursion.  Numbers and strings are checked less
strictly than where their value matters: a number may have any size, and
surrogates and bytes inside a string are not looked at.
-/
import Storyboard.Json.Numbers

namespace Storyboard

namespace Json

/-- A bracket that is open. -/
inductive Container where
  | list
  | object
  deriving DecidableEq

namespace Container

/-- The byte that closes the container. -/
def close : Container → UInt8
  | list => closeBracket
  | object => closeBrace

/-- The container that ends too early. -/
def ended : Container → Fault
  | list => .endInList
  | object => .endInObject

/-- An item that neither goes on nor ends. -/
def expected : Container → Fault
  | list => .expectedCommaOrBracket
  | object => .expectedCommaOrBrace

end Container

namespace Reader

/-! ### Scalars -/

/-- The exponent of a number, after its letter. -/
def skipExponent : Reader Unit := do
  let _ ← exponentSign
  match ← next with
  | some b =>
    if isDigit b then do
      let _ ← digits
      pure ()
    else failHere .invalidNumber
  | none => failHere .invalidNumber

/-- The exponent of a number, if there is one. -/
def skipOptionalExponent : Reader Unit := do
  match ← peek with
  | some b =>
    if isExponentMark b then do
      skip 1
      skipExponent
    else pure ()
  | none => pure ()

/-- What follows the digits before the point. -/
def skipAfterWhole : Reader Unit := do
  match ← peek with
  | some b =>
    if b = point then do
      skip 1
      let fraction ← digits
      if fraction.isEmpty then failNext .invalidNumber else skipOptionalExponent
    else skipOptionalExponent
  | none => pure ()

/-- A number after its sign. -/
def skipNumber : Reader Unit := do
  match ← next with
  | none => failHere .invalidNumber
  | some b =>
    if !isDigit b then failHere .invalidNumber
    else if b = zeroDigit then do
      match ← peek with
      | some c => if isDigit c then failNext .invalidNumber else skipAfterWhole
      | none => skipAfterWhole
    else do
      let _ ← digits
      skipAfterWhole

/-- An escape, after its backslash. -/
def skipEscape : Reader Unit := do
  match ← next with
  | none => failHere .endInString
  | some letter =>
    if letter = unicodeLetter then do
      let _ ← fourDigits
      pure ()
    else if (simpleEscape? letter).isSome then pure ()
    else failHere .invalidEscape

/-- Pass over what follows plain bytes.  A control character stays unread. -/
def skipEdge : Reader (Unit ⊕ Unit) := do
  match ← peek with
  | none => failHere .endInString
  | some b =>
    if b = quoteMark then do
      skip 1
      pure (.inr ())
    else if b = backslash then do
      skip 1
      skipEscape
      pure (.inl ())
    else failHere .controlCharacter

/-- Pass over plain bytes and what follows them. -/
def skipStringStep (_ : Unit) : Reader (Unit ⊕ Unit) := do
  let _ ← run isPlain
  skipEdge

/-- Pass over one byte, and over what it begins if it is not plain. -/
def skipByteStep (_ : Unit) : Reader (Unit ⊕ Unit) := do
  let b ← nextInString
  if isPlain b then pure (.inl ())
  else if b = quoteMark then pure (.inr ())
  else if b = backslash then do
    skipEscape
    pure (.inl ())
  else failHere .controlCharacter

/-- A string after its opening quote. -/
def skipString : Reader Unit := bySource (loop skipStringStep ()) (loop skipByteStep ())

/-! ### Containers -/

/-- The name of a member and the colon after it. -/
def skipName : Reader Unit := do
  match ← token with
  | none => failNext .endInObject
  | some b =>
    if b = quoteMark then do
      skip 1
      skipString
      separator
    else failNext .keyNotString

/-- Go to the value of the next item. -/
def enterItem : Container → Reader Unit
  | .list => pure ()
  | .object => skipName

/-- After a value: go to the next item of the innermost open container, or close
it and go on with the one around it. -/
def leave : List Container → Reader (List Container ⊕ Unit)
  | [] => pure (.inr ())
  | c :: outer => do
    match ← token with
    | none => failNext c.ended
    | some b =>
      if b = comma then do
        skip 1
        enterItem c
        pure (.inl (c :: outer))
      else if b = c.close then do
        skip 1
        leave outer
      else failNext c.expected

/-- After an opening bracket: go to the first item, or close the container. -/
def enter (c : Container) (outer : List Container) : Reader (List Container ⊕ Unit) := do
  match ← token with
  | none => failNext c.ended
  | some b =>
    if b = c.close then do
      skip 1
      leave outer
    else do
      enterItem c
      pure (.inl (c :: outer))

/-- Pass over a scalar with the brackets closed after it, or over an opening
bracket. -/
def skipStep (stack : List Container) : Reader (List Container ⊕ Unit) := do
  match ← token with
  | none => failNext .endInValue
  | some b =>
    if b = 0x6e then do
      skip 1
      nullRest
      leave stack
    else if b = 0x74 then do
      skip 1
      trueRest
      leave stack
    else if b = 0x66 then do
      skip 1
      falseRest
      leave stack
    else if b = minus then do
      skip 1
      skipNumber
      leave stack
    else if isDigit b then do
      skipNumber
      leave stack
    else if b = quoteMark then do
      skip 1
      skipString
      leave stack
    else if b = openBracket then do
      skip 1
      enter .list stack
    else if b = openBrace then do
      skip 1
      enter .object stack
    else failNext .expectedValue

/-- Pass over a value. -/
def skipValue : Reader Unit := loop skipStep []

end Reader

end Json

end Storyboard
