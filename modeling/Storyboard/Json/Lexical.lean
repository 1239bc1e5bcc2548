/-
Storyboard/Json/Lexical.lean

The smallest parts of a JSON text: blanks, punctuation and the three words.

`token` passes over blanks and looks at the byte after them; nothing else reads
blanks, so each reader of a larger part begins with it.
-/
import Storyboard.Json.Reader

namespace Storyboard

namespace Json

/-! ### Bytes -/

/-- The quote. -/
def quoteMark : UInt8 := 0x22

/-- The plus sign. -/
def plus : UInt8 := 0x2b

/-- The comma. -/
def comma : UInt8 := 0x2c

/-- The minus sign. -/
def minus : UInt8 := 0x2d

/-- The point. -/
def point : UInt8 := 0x2e

/-- The slash. -/
def slash : UInt8 := 0x2f

/-- The digit zero. -/
def zeroDigit : UInt8 := 0x30

/-- The colon. -/
def colon : UInt8 := 0x3a

/-- The opening bracket. -/
def openBracket : UInt8 := 0x5b

/-- The backslash. -/
def backslash : UInt8 := 0x5c

/-- The closing bracket. -/
def closeBracket : UInt8 := 0x5d

/-- The opening brace. -/
def openBrace : UInt8 := 0x7b

/-- The closing brace. -/
def closeBrace : UInt8 := 0x7d

/-- Space, line feed, tab and carriage return. -/
def isBlank (b : UInt8) : Bool := b == 0x20 || b == lineFeed || b == 0x09 || b == 0x0d

/-- A decimal digit. -/
def isDigit (b : UInt8) : Bool := zeroDigit ≤ b && b ≤ 0x39

/-- The value of a decimal digit. -/
def digitValue (b : UInt8) : Nat := b.toNat - 48

/-- Either letter that begins an exponent. -/
def isExponentMark (b : UInt8) : Bool := b == 0x65 || b == 0x45

namespace Reader

variable {α : Type}

/-! ### Tokens -/

/-- Pass over blanks and look at the byte after them. -/
def token : Reader (Option UInt8) := do
  let _ ← run isBlank
  peek

/-- Pass over a colon that separates a member's name from its value. -/
def separator : Reader Unit := do
  match ← token with
  | none => failNext .endInObject
  | some b => if b = colon then skip 1 else failNext .expectedColon

/-- Read the remaining bytes of a word. -/
def wordRest : List UInt8 → Reader Unit
  | [] => pure ()
  | expected :: rest => do
    match ← next with
    | none => failHere .endInValue
    | some b => if b = expected then wordRest rest else failHere .expectedWord

/-- The word for nothing, without its first letter. -/
def nullRest : Reader Unit := wordRest [0x75, 0x6c, 0x6c]

/-- The word for truth, without its first letter. -/
def trueRest : Reader Unit := wordRest [0x72, 0x75, 0x65]

/-- The word for falsehood, without its first letter. -/
def falseRest : Reader Unit := wordRest [0x61, 0x6c, 0x73, 0x65]

/-! ### Ends of containers -/

/-- The end of an object whose body has been read. -/
def endObject : Reader Unit := do
  match ← token with
  | none => failNext .endInObject
  | some b =>
    if b = closeBrace then skip 1
    else if b = comma then failNext .trailingComma
    else failNext .trailingCharacters

/-- The end of a list whose body has been read. -/
def endList : Reader Unit := do
  match ← token with
  | none => failNext .endInList
  | some b =>
    if b = closeBracket then skip 1
    else if b = comma then do
      skip 1
      match ← token with
      | some c =>
        if c = closeBracket then failNext .trailingComma else failNext .trailingCharacters
      | none => failNext .trailingCharacters
    else failNext .trailingCharacters

/-- Go to the next element of a list, if there is one; its end stays unread. -/
def nextElement (first : Bool) : Reader Bool := do
  match ← token with
  | none => failNext .endInList
  | some b =>
    if b = closeBracket then pure false
    else if first then pure true
    else if b = comma then do
      skip 1
      match ← token with
      | none => failNext .endInValue
      | some c => if c = closeBracket then failNext .trailingComma else pure true
    else failNext .expectedCommaOrBracket

/-- Go to the name of the next member of an object, if there is one, and pass
over its opening quote; the end of the object stays unread. -/
def nextMember (first : Bool) : Reader Bool := do
  match ← token with
  | none => failNext .endInObject
  | some b =>
    if b = closeBrace then pure false
    else if first then name b
    else if b = comma then do
      skip 1
      match ← token with
      | none => failNext .endInValue
      | some c => if c = closeBrace then failNext .trailingComma else name c
    else failNext .expectedCommaOrBrace
where
  /-- Pass over the quote that a name begins with. -/
  name (b : UInt8) : Reader Bool := do
    if b = quoteMark then
      skip 1
      pure true
    else failNext .keyNotString

end Reader

end Json

end Storyboard
