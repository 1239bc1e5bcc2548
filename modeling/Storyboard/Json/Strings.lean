/-
Storyboard/Json/Strings.lean

Reading JSON strings.

The bytes between the quotes are collected with their escapes resolved, and must
then be UTF-8.  A character beyond the sixteen-bit range is escaped as two
surrogates; half of such a pair is an error.

In a text held as a whole the bytes that stand for themselves are found in one
run, and the digits of an escape in one piece.  A stream gives one byte at a time.
-/
import Storyboard.Json.Lexical
import Storyboard.Json.Utf8

namespace Storyboard

namespace Json

/-- A byte that stands for itself inside a string. -/
def isPlain (b : UInt8) : Bool := b != quoteMark && b != backslash && 0x20 ≤ b

/-- The byte that a one-letter escape stands for. -/
def simpleEscape? (letter : UInt8) : Option UInt8 :=
  if letter = quoteMark ∨ letter = backslash ∨ letter = slash then some letter
  else if letter = 0x62 then some 0x08
  else if letter = 0x66 then some 0x0c
  else if letter = 0x6e then some 0x0a
  else if letter = 0x72 then some 0x0d
  else if letter = 0x74 then some 0x09
  else none

/-- The letter that begins an escape by number. -/
def unicodeLetter : UInt8 := 0x75

/-- The value of a hexadecimal digit of either case. -/
def hexValue? (b : UInt8) : Option Nat :=
  if 0x30 ≤ b ∧ b ≤ 0x39 then some (b.toNat - 0x30)
  else if 0x61 ≤ b ∧ b ≤ 0x66 then some (b.toNat - 0x61 + 10)
  else if 0x41 ≤ b ∧ b ≤ 0x46 then some (b.toNat - 0x41 + 10)
  else none

/-- The number that hexadecimal digits write. -/
def hexNumber? (digits : List UInt8) : Option Nat :=
  digits.foldlM (fun n b => (hexValue? b).map (16 * n + ·)) 0

/-- A code of the first half of a surrogate pair. -/
def isHighSurrogate (n : Nat) : Bool := 0xd800 ≤ n && n < 0xdc00

/-- A code of the second half of a surrogate pair. -/
def isLowSurrogate (n : Nat) : Bool := 0xdc00 ≤ n && n < 0xe000

/-- The character that a surrogate pair stands for. -/
def fromSurrogates (high low : Nat) : Char :=
  Char.ofNat (0x10000 + (high - 0xd800) * 0x400 + (low - 0xdc00))

namespace Reader

/-! ### Escapes -/

/-- The four digits of an escape by number, in one piece. -/
def fourDigitsAtOnce : Reader Nat := fun i =>
  if i.left < 4 then failHere .endInString (i.skip i.left)
  else
    match hexNumber? (i.rest.take 4) with
    | some n => .ok n (i.skip 4)
    | none => failHere .invalidEscape (i.skip 4)

/-- The next byte, where a string goes on. -/
def nextInString : Reader UInt8 := do
  match ← next with
  | none => failHere .endInString
  | some b => pure b

/-- The four digits of an escape by number, one after the other.  All four are
read before the first is looked at. -/
def fourDigitsInTurn : Reader Nat := do
  let a ← nextInString
  let b ← nextInString
  let c ← nextInString
  let d ← nextInString
  match hexNumber? [a, b, c, d] with
  | some n => pure n
  | none => failHere .invalidEscape

/-- The four digits of an escape by number. -/
def fourDigits : Reader Nat := bySource fourDigitsAtOnce fourDigitsInTurn

/-- A byte between the halves of a surrogate pair. -/
def pairByte (expected : UInt8) : Reader Unit := do
  match ← next with
  | none => failHere .endInString
  | some b => if b = expected then pure () else failHere .unfinishedSurrogatePair

/-- The character of an escape by number. -/
def escapedChar : Reader Char := do
  let n ← fourDigits
  if isLowSurrogate n then failHere .loneSurrogate
  else if isHighSurrogate n then do
    pairByte backslash
    pairByte unicodeLetter
    let m ← fourDigits
    if isLowSurrogate m then pure (fromSurrogates n m) else failHere .loneSurrogate
  else pure (Char.ofNat n)

/-- The bytes of an escape, after its backslash. -/
def escapeSequence : Reader (List UInt8) := do
  match ← next with
  | none => failHere .endInString
  | some letter =>
    if letter = unicodeLetter then do
      let c ← escapedChar
      pure (String.utf8EncodeChar c)
    else
      match simpleEscape? letter with
      | some b => pure [b]
      | none => failHere .invalidEscape

/-! ### Strings -/

/-- A byte that does not stand for itself, with what it begins, after the bytes
already found, latest first. -/
def contentEdge (found : List UInt8) (b : UInt8) : Reader (List UInt8 ⊕ List UInt8) :=
  if b = quoteMark then pure (.inr found.reverse)
  else if b = backslash then do
    let bytes ← escapeSequence
    pure (.inl (bytes.reverseAux found))
  else failHere .controlCharacter

/-- Read plain bytes and what follows them. -/
def contentStep (found : List UInt8) : Reader (List UInt8 ⊕ List UInt8) := do
  let plain ← run isPlain
  let b ← nextInString
  contentEdge (plain.reverseAux found) b

/-- Read one byte, and what it begins if it is not plain. -/
def contentByteStep (found : List UInt8) : Reader (List UInt8 ⊕ List UInt8) := do
  let b ← nextInString
  if isPlain b then pure (.inl (b :: found)) else contentEdge found b

/-- The bytes of a string, after its opening quote, up to and over the closing
one. -/
def content : Reader (List UInt8) := bySource (loop contentStep []) (loop contentByteStep [])

/-- The text that bytes encode.  Where they do not, the error is reported as many
bytes before its place as there are bytes that make no sense. -/
def decoded (bytes : List UInt8) : Reader String := fun i =>
  match Utf8.decode bytes with
  | (chars, []) => .ok (String.ofList chars) i
  | (_, senseless) =>
    .fail ⟨.invalidUtf8, some { i.here with back := senseless.length }⟩ i

/-- A string after its opening quote. -/
def stringRest : Reader String := do
  let bytes ← content
  decoded bytes

end Reader

end Json

end Storyboard
