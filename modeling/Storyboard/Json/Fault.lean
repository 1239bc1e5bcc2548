/-
Storyboard/Json/Fault.lean

What can be wrong with a JSON text, and where.

A fault is known by its kind; the wording is in `Fault.message` alone.  Its
place is a number of bytes from the start, and there are two such numbers: one
for a text that is held as a whole, and one for a stream, where a byte that was
looked at counts as read.  Which of them is reported is decided at the very end
(`Source`), so reading itself is the same for both.
-/
import Storyboard.Json.NumberText
import Storyboard.Text.Diagnostic

namespace Storyboard

namespace Json

/-! ### Faults -/

/-- A value that stands where one of another kind is expected. -/
inductive Found where
  | null
  | boolean (b : Bool)
  | integer (i : Int)
  | float (x : Binary64)
  | text (s : String)
  | list
  | object
  /-- A name that stands for a member's value. -/
  | bareName
  deriving DecidableEq

namespace Found

/-- How a fault speaks of a value. -/
def message : Found → String
  | null => "null"
  | boolean b => "boolean `" ++ toString b ++ "`"
  | integer i => "integer `" ++ toString i ++ "`"
  | float x => "floating point `" ++ x.jsonText ++ "`"
  | text s => "string " ++ Text.quoted s
  | list => "sequence"
  | object => "map"
  | bareName => "unit variant"

end Found

/-- What is wrong with a JSON text. -/
inductive Fault where
  | endInValue
  | endInObject
  | endInList
  | endInString
  | trailingComma
  | trailingCharacters
  | expectedCommaOrBrace
  | expectedCommaOrBracket
  | expectedColon
  | expectedValue
  | expectedWord
  | keyNotString
  | invalidNumber
  | numberOutOfRange
  | invalidEscape
  | loneSurrogate
  | unfinishedSurrogatePair
  | controlCharacter
  | invalidUtf8
  | wrongKind (found : Found) (expected : String)
  | wrongInteger (i : Int) (expected : String)
  | wrongLength (length : Nat) (expected : String)
  | unknownMember (name : String) (known : List String)
  | unknownName (name : String) (known : List String)
  | duplicateMember (name : String)
  | missingMember (name : String)
  /-- A value that its type refuses, with the reason. -/
  | refused (reason : String)
  deriving DecidableEq

/-- A name between back quotes. -/
def backquoted (name : String) : String := "`" ++ name ++ "`"

/-- The names that would have been understood. -/
def expectedNames : List String → String
  | [a] => backquoted a
  | [a, b] => backquoted a ++ " or " ++ backquoted b
  | names => "one of " ++ String.intercalate ", " (names.map backquoted)

namespace Fault

/-- The wording of a fault. -/
def message : Fault → String
  | endInValue => "EOF while parsing a value"
  | endInObject => "EOF while parsing an object"
  | endInList => "EOF while parsing a list"
  | endInString => "EOF while parsing a string"
  | trailingComma => "trailing comma"
  | trailingCharacters => "trailing characters"
  | expectedCommaOrBrace => "expected `,` or `\x7d`"
  | expectedCommaOrBracket => "expected `,` or `]`"
  | expectedColon => "expected `:`"
  | expectedValue => "expected value"
  | expectedWord => "expected ident"
  | keyNotString => "key must be a string"
  | invalidNumber => "invalid number"
  | numberOutOfRange => "number out of range"
  | invalidEscape => "invalid escape"
  | loneSurrogate => "lone leading surrogate in hex escape"
  | unfinishedSurrogatePair => "unexpected end of hex escape"
  | controlCharacter => "control character (\\u0000-\\u001F) found while parsing a string"
  | invalidUtf8 => "invalid unicode code point"
  | wrongKind found expected => "invalid type: " ++ found.message ++ ", expected " ++ expected
  | wrongInteger i expected =>
    "invalid value: integer " ++ backquoted (toString i) ++ ", expected " ++ expected
  | wrongLength length expected =>
    "invalid length " ++ toString length ++ ", expected " ++ expected
  | unknownMember name known =>
    "unknown field " ++ backquoted name ++ ", expected " ++ expectedNames known
  | unknownName name known =>
    "unknown variant " ++ backquoted name ++ ", expected " ++ expectedNames known
  | duplicateMember name => "duplicate field " ++ backquoted name
  | missingMember name => "missing field " ++ backquoted name
  | refused reason => reason

end Fault

/-! ### Places -/

/-- Where the text comes from. -/
inductive Source where
  /-- A text held as a whole. -/
  | text
  /-- A stream of bytes, read one by one. -/
  | stream
  deriving DecidableEq

/-- A place in a text, in bytes from its start. -/
structure Place where
  /-- The place in a text held as a whole. -/
  inText : Nat
  /-- The place in a stream. -/
  inStream : Nat
  /-- Bytes by which the reported column lies before the place. -/
  back : Nat := 0
  deriving DecidableEq

/-- A place as people count: both numbers are of bytes, the line from one. -/
structure Position where
  line : Nat
  column : Nat
  deriving DecidableEq

/-- The line feed. -/
def lineFeed : UInt8 := 0x0a

/-- The position after some bytes: one line more than there are line feeds, and
the bytes after the last of them. -/
def Position.after (bytes : List UInt8) : Position where
  line := 1 + bytes.count lineFeed
  column := (bytes.reverse.takeWhile (· != lineFeed)).length

/-- The position of a place in the bytes that were read. -/
def Place.position (p : Place) (source : Source) (bytes : List UInt8) : Position :=
  let offset := match source with
    | .text => p.inText
    | .stream => p.inStream
  let position := Position.after (bytes.take offset)
  { position with column := position.column - p.back }

/-- A fault, with its position where it has one. -/
structure Located where
  fault : Fault
  position? : Option Position
  deriving DecidableEq

/-- The wording of a fault with its position. -/
def Located.message (e : Located) : String :=
  match e.position? with
  | some p =>
    e.fault.message ++ " at line " ++ toString p.line ++ " column " ++ toString p.column
  | none => e.fault.message

end Json

end Storyboard
