/-
Storyboard/Text/Diagnostic.lean

How diagnostics show a text: between quotes, with what cannot be seen made
visible.
-/
import Storyboard.Text.Hidden

namespace Storyboard

namespace Text

/-- A character inside a diagnostic: hidden ones by number, the rest as they are. -/
def shown (c : Char) : List Char :=
  if c = '\x00' then ['\\', '0']
  else if c = '\t' then ['\\', 't']
  else if c = '\r' then ['\\', 'r']
  else if c = '\n' then ['\\', 'n']
  else if c = '\\' then ['\\', '\\']
  else if c = '"' then ['\\', '"']
  else if isHidden c then
    '\\' :: 'u' :: '\x7b' :: (Nat.toDigits 16 c.toNat ++ ['\x7d'])
  else [c]

/-- A text as a diagnostic shows it. -/
def quoted (s : String) : String :=
  String.ofList ('"' :: (s.toList.flatMap shown ++ ['"']))

end Text

end Storyboard
