/-
Storyboard/EventsText.lean

The document of a storyboard: a section header, the chains of the sprites in
order with an empty line between two of them, and a last empty line.  Every
line, empty or not, ends in the chosen terminator.
-/
import Storyboard.Board

namespace Storyboard

/-- The terminator of every line of a document. -/
inductive LineEnding where
  /-- Carriage return and line feed. -/
  | crlf
  | lf
  deriving DecidableEq

namespace LineEnding

instance : Inhabited LineEnding := ⟨crlf⟩

/-- The terminator. -/
def text : LineEnding → String
  | crlf => "\r\n"
  | lf => "\n"

end LineEnding

namespace Board

/-- Header of the section that a document consists of. -/
def sectionHeader : String := "[Events]"

/-- The chains of the sprites as blocks of lines. -/
def blocks (b : Board) : List (List String) := b.toList.map fun s => s.track.lines

/-- Blocks in order, with an empty line between two of them. -/
def separate : List (List String) → List String
  | [] => []
  | [block] => block
  | block :: rest => block ++ "" :: separate rest

/-- The lines of the document. -/
def lines (b : Board) : List String := sectionHeader :: (separate b.blocks ++ [""])

/-- The text of the document. -/
def render (b : Board) (ending : LineEnding) : String :=
  String.join (b.lines.map (· ++ ending.text))

end Board

end Storyboard
