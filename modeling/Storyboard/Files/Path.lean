/-
Storyboard/Files/Path.lean

Paths as texts.

A path is kept as it was given.  Its *segments* are what stands between slashes.
Empty segments are not significant, nor is a point that is not the first segment.
The *stems* of a path are its beginnings up to a significant segment, and the
longest stem is the path without what trails it.  Parent and file name are read
off the stems, so trailing slashes and points are not seen by them.
-/
namespace Storyboard

/-- A path, as it was given. -/
structure Path where
  text : String
  deriving DecidableEq

namespace Path

/-! ### Segments -/

/-- What stands between slashes. -/
def splitSlash : List Char → List (List Char)
  | [] => [[]]
  | c :: rest =>
    if c = '/' then [] :: splitSlash rest
    else match splitSlash rest with
      | [] => [[c]]
      | s :: more => (c :: s) :: more

/-- The segments of a path. -/
def segments (p : Path) : List String := (splitSlash p.text.toList).map String.ofList

/-- The path with given segments. -/
def ofSegments (segments : List String) : Path := ⟨String.intercalate "/" segments⟩

/-- The path begins with a slash. -/
def isAbsolute (p : Path) : Bool := p.text.toList.head? == some '/'

/-- The path ends with a slash. -/
def endsInSlash (p : Path) : Bool := p.text.toList.getLast? == some '/'

/-- A segment after given ones leads somewhere. -/
def isSignificant (before : List String) (segment : String) : Bool :=
  segment != "" && (segment != "." || before.isEmpty)

/-! ### Stems -/

/-- The beginnings that end in a significant segment, shortest first, each with the
given segments before it. -/
def stemsAfter (before : List String) : List String → List (List String)
  | [] => []
  | s :: rest =>
    let here := before ++ [s]
    if isSignificant before s then here :: stemsAfter here rest else stemsAfter here rest

/-- The stems of a path, longest first, as lists of segments. -/
def stems (p : Path) : List (List String) := (stemsAfter [] p.segments).reverse

/-- The path without its last segment; a path that names nothing has no parent. -/
def parent? (p : Path) : Option Path :=
  match p.stems with
  | [] => none
  | [_] => some ⟨if p.isAbsolute then "/" else ""⟩
  | _ :: shorter :: _ => some (ofSegments shorter)

/-- The last segment of a path, if it is a name. -/
def fileName? (p : Path) : Option String :=
  match p.stems.head?.bind List.getLast? with
  | some name => if name = "." ∨ name = ".." then none else some name
  | none => none

/-- A path below another one. -/
def join (p : Path) (name : String) : Path :=
  if p.text.isEmpty || p.endsInSlash then ⟨p.text ++ name⟩ else ⟨p.text ++ "/" ++ name⟩

/-- The path with another file name; a path without one gets it at its end. -/
def withFileName (p : Path) (name : String) : Path :=
  match p.fileName?, p.parent? with
  | some _, some parent => parent.join name
  | _, _ => p.join name

/-- The directories that lead to a path, itself included, longest first. -/
def ancestry (p : Path) : List Path := p.stems.map ofSegments

end Path

end Storyboard
