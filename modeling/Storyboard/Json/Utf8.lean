/-
Storyboard/Json/Utf8.lean

Characters from UTF-8 bytes.

Only the shortest form of a character counts, and no surrogate has one.  Bytes
are decoded as far as they make sense, and what is left begins with the first
byte that does not belong to a character.
-/
namespace Storyboard

namespace Utf8

/-- A byte that continues a character. -/
def isContinuation (b : UInt8) : Bool := 0x80 ≤ b && b < 0xc0

/-- The low six bits of a byte that continues a character. -/
def continuationBits (b : UInt8) : Nat := b.toNat % 64

/-- The character with a given code, which takes at least `least`. -/
def charFrom (least code : Nat) : Option Char :=
  if h : least ≤ code ∧ code.isValidChar then some ⟨code.toUInt32, by
    have := h.2
    simp only [UInt32.isValidChar, Nat.toUInt32, UInt32.toNat_ofNat']
    rw [Nat.mod_eq_of_lt]
    · exact this
    · simp only [Nat.isValidChar] at this
      omega⟩
  else none

/-- The first character of some bytes, with the bytes after it. -/
def decodeFirst : List UInt8 → Option (Char × List UInt8)
  | [] => none
  | a :: r₁ =>
    if a < 0x80 then (charFrom 0 a.toNat).map (·, r₁)
    else match r₁ with
      | [] => none
      | b :: r₂ =>
        if !isContinuation b then none
        else if 0xc0 ≤ a && a < 0xe0 then
          (charFrom 0x80 (a.toNat % 32 * 64 + continuationBits b)).map (·, r₂)
        else match r₂ with
          | [] => none
          | c :: r₃ =>
            if !isContinuation c then none
            else if 0xe0 ≤ a && a < 0xf0 then
              (charFrom 0x800
                ((a.toNat % 16 * 64 + continuationBits b) * 64 + continuationBits c)).map (·, r₃)
            else match r₃ with
              | [] => none
              | d :: r₄ =>
                if !isContinuation d then none
                else if 0xf0 ≤ a && a < 0xf8 then
                  (charFrom 0x10000
                    (((a.toNat % 8 * 64 + continuationBits b) * 64 + continuationBits c) * 64
                      + continuationBits d)).map (·, r₄)
                else none

/-- Decode bytes onto characters already found, latest first.  Each character
takes at least one byte, so as many steps as there are bytes suffice. -/
def decodeOnto : Nat → List Char → List UInt8 → List Char × List UInt8
  | 0, found, bytes => (found.reverse, bytes)
  | n + 1, found, bytes =>
    match decodeFirst bytes with
    | some (c, rest) => decodeOnto n (c :: found) rest
    | none => (found.reverse, bytes)

/-- The characters at the beginning of some bytes, and the bytes from the first
one on that is part of no character. -/
def decode (bytes : List UInt8) : List Char × List UInt8 :=
  decodeOnto bytes.length [] bytes

/-- The text that some bytes encode. -/
def text? (bytes : List UInt8) : Option String :=
  match decode bytes with
  | (chars, []) => some (String.ofList chars)
  | _ => none

/-- The bytes of a text. -/
def encode (s : String) : List UInt8 := s.toList.flatMap String.utf8EncodeChar

end Utf8

end Storyboard
