/-
Storyboard/Text/Blank.lean

White space in the sense of the Unicode property White_Space.
-/
namespace Storyboard

namespace Text

/-- The character has the property White_Space. -/
def isBlank (c : Char) : Bool :=
  let n := c.toNat
  (0x09 ≤ n && n ≤ 0x0d) || n == 0x20 || n == 0x85 || n == 0xa0 || n == 0x1680 ||
    (0x2000 ≤ n && n ≤ 0x200a) || n == 0x2028 || n == 0x2029 || n == 0x202f ||
    n == 0x205f || n == 0x3000

/-- The text is empty or white space only. -/
def allBlank (s : String) : Bool := s.toList.all isBlank

end Text

end Storyboard
