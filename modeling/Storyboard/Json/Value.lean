/-
Storyboard/Json/Value.lean

JSON values and how they are written.

A value is written as a sequence of tokens, and the compact text is the texts of
the tokens one after the other.  Strings escape quotes, backslashes and control
characters only; everything else stands for itself.
-/
import Storyboard.Json.NumberText

namespace Storyboard

namespace Json

/-- A JSON value that is to be written.  Members keep their order. -/
inductive Value where
  | integer (i : Int)
  | float (x : Binary64)
  | text (s : String)
  | list (items : List Value)
  | object (members : List (String × Value))

/-- The smallest parts of a JSON text. -/
inductive Token where
  | openObject
  | closeObject
  | openList
  | closeList
  | comma
  | colon
  | text (s : String)
  /-- A number, or a name such as `null`. -/
  | word (s : String)
  deriving DecidableEq

/-! ### Strings -/

/-- A hexadecimal digit. -/
def hexDigit (n : Nat) : Char := Nat.digitChar n

/-- A character inside a JSON string. -/
def escape (c : Char) : List Char :=
  if c = '"' then ['\\', '"']
  else if c = '\\' then ['\\', '\\']
  else if c.toNat = 8 then ['\\', 'b']
  else if c.toNat = 12 then ['\\', 'f']
  else if c = '\n' then ['\\', 'n']
  else if c = '\r' then ['\\', 'r']
  else if c = '\t' then ['\\', 't']
  else if c.toNat < 32 then
    ['\\', 'u', '0', '0', hexDigit (c.toNat / 16), hexDigit (c.toNat % 16)]
  else [c]

/-- A JSON string with its quotes. -/
def quote (s : String) : String :=
  String.ofList ('"' :: (s.toList.flatMap escape ++ ['"']))

/-! ### Tokens -/

/-- The text of a token. -/
def Token.written : Token → String
  | openObject => "\x7b"
  | closeObject => "\x7d"
  | openList => "["
  | closeList => "]"
  | comma => ","
  | colon => ":"
  | text s => quote s
  | word s => s

/-- Token sequences with a comma between two of them. -/
def commaSeparated : List (List Token) → List Token
  | [] => []
  | [item] => item
  | item :: rest => item ++ .comma :: commaSeparated rest

mutual

/-- The tokens of a value. -/
def Value.tokens : Value → List Token
  | .integer i => [.word (toString i)]
  | .float x => [.word x.jsonText]
  | .text s => [.text s]
  | .list items => .openList :: (commaSeparated (listTokens items) ++ [.closeList])
  | .object members => .openObject :: (commaSeparated (memberTokens members) ++ [.closeObject])

/-- The tokens of each item of a list. -/
def listTokens : List Value → List (List Token)
  | [] => []
  | item :: rest => item.tokens :: listTokens rest

/-- The tokens of each member of an object. -/
def memberTokens : List (String × Value) → List (List Token)
  | [] => []
  | (name, value) :: rest => (.text name :: .colon :: value.tokens) :: memberTokens rest

end

/-- The compact text of a value. -/
def Value.written (v : Value) : String := String.join (v.tokens.map Token.written)

end Json

end Storyboard
