/-
Storyboard/Output.lean

Writing a document to a file, all at once.

The text is written to a temporary file beside the output, which is then moved
into place, so nobody sees half a document.  When a step fails, the temporary
file is removed; directories that were made stay.
-/
import Storyboard.Failure
import Storyboard.Files.Disk
import Storyboard.Json.Utf8

namespace Storyboard

namespace Output

variable {m : Type → Type} [Monad m] [Disk m]

/-! ### Directories -/

/-- Make the first directory of a chain, or, where its parent is missing, one
further up.  Answers the directories still to be made, outermost first. -/
def climb : (chain pending : List Path) → m (Except FileFault (List Path))
  | [], pending => pure (.ok pending)
  | p :: above, pending => do
    match ← Disk.makeDirectory p with
    | .ok () => pure (.ok pending)
    | .error .notFound => climb above (p :: pending)
    | .error .alreadyExists =>
      if ← Disk.isDirectory p then pure (.ok pending) else pure (.error .alreadyExists)
    | .error e => pure (.error e)

/-- Make directories in order.  One that is there already is as good as made. -/
def descend : (pending : List Path) → m (Except FileFault Unit)
  | [] => pure (.ok ())
  | p :: below => do
    match ← Disk.makeDirectory p with
    | .ok () => descend below
    | .error .alreadyExists =>
      if ← Disk.isDirectory p then descend below else pure (.error .alreadyExists)
    | .error e => pure (.error e)

/-- Make a directory and those that lead to it. -/
def createDirectories (p : Path) : m (Except FileFault Unit) := do
  match ← climb p.ancestry [] with
  | .ok pending => descend pending
  | .error e => pure (.error e)

/-- Make the directory that an output belongs to. -/
def makeParent (out : Path) : m (Except Failure Unit) := do
  match out.parent? with
  | none => pure (.ok ())
  | some parent =>
    if parent.text.isEmpty then pure (.ok ())
    else match ← createDirectories parent with
      | .ok () => pure (.ok ())
      | .error e => pure (.error (.output (.createDirectory parent.text) e))

/-! ### Documents -/

/-- The file name used where an output has none. -/
def defaultName : String := "storyboard.osb"

/-- A path beside the output that belongs to this process alone. -/
def temporaryPath (processId : String) (out : Path) : Path :=
  out.withFileName (out.fileName?.getD defaultName ++ "." ++ processId ++ ".tmp")

/-- Give up on a temporary file. -/
def abandon (temporary : Path) (e : Failure) : m (Except Failure Unit) := do
  let _ ← Disk.remove temporary
  pure (.error e)

/-- Write a text to a file, making directories as needed. -/
def replaceFile (processId : String) (out : Path) (text : String) :
    m (Except Failure Unit) := do
  match ← makeParent out with
  | .error e => pure (.error e)
  | .ok () =>
    let temporary := temporaryPath processId out
    match ← Disk.write temporary (Utf8.encode text) with
    | .error e => abandon temporary (.output (.writeTemporary temporary.text) e)
    | .ok () =>
      match ← Disk.rename temporary out with
      | .error e => abandon temporary (.output (.moveInto out.text) e)
      | .ok () => pure (.ok ())

end Output

end Storyboard
