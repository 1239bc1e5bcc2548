/-
Storyboard/Compile.lean

Compile runs: from source files to a document.

All sources are read before the first is parsed, and all are parsed before
anything is carried out, so an unreadable file is reported before a malformed
one, and a malformed one before a fault in a script.  Nothing is written before
the document is complete.
-/
import Storyboard.EventsText
import Storyboard.Output
import Storyboard.Script.Evaluation
import Storyboard.Script.Format

namespace Storyboard

/-! ### Runs -/

/-- What is compiled. -/
structure CompileOptions where
  /-- Scripts whose effects and sprites come first, in this order. -/
  libraries : List Path := []
  script : Path
  ending : LineEnding := .crlf
  deriving DecidableEq

/-- A compiled document. -/
structure Compiled where
  text : String
  sprites : Nat
  /-- How many lines the sprites have, headers among them. -/
  records : Nat
  deriving DecidableEq

/-- All sources in the order in which they are merged. -/
def CompileOptions.sources (o : CompileOptions) : List Path := o.libraries ++ [o.script]

namespace Compile

variable {m : Type → Type} [Monad m] [Disk m]

/-! ### Sources -/

/-- The text of a file. -/
def textOf (path : Path) : Except FileFault (List UInt8) → Run String
  | .error e => .fail (.sourceRead path.text e)
  | .ok bytes =>
    match Utf8.text? bytes with
    | some text => pure text
    | none => .fail (.sourceRead path.text .notUtf8)

/-- The texts of all sources. -/
def readTexts (paths : List Path) : m (Run (List String)) := do
  let contents ← paths.mapM Disk.read
  pure (.within (.reading paths.length)
    ((paths.zip contents).mapM fun (path, content) => textOf path content))

/-- The document in a file. -/
def parse (path : Path) (text : String) : Run Document :=
  match Document.read .text (Utf8.encode text) with
  | .ok d => pure d
  | .error e => .fail (.serialization (.inFile path.text e))

/-- All documents merged. -/
def mergeTexts (paths : List Path) (texts : List String) : Run Document := do
  let docs ← (paths.zip texts).mapM fun (path, text) => parse path text
  let merged := Document.merge docs
  .note (.sourcesMerged merged.effects.length merged.sprites.length)
  pure merged

/-- Read, parse and merge all sources. -/
def readMerged (paths : List Path) : m (Run Document) := do
  let texts ← readTexts paths
  pure do
    let texts ← texts
    mergeTexts paths texts

/-! ### Documents -/

/-- The document of a storyboard. -/
def output (ending : LineEnding) (b : Board) : Compiled :=
  ⟨b.render ending, b.size, b.recordCount⟩

/-- Compile sources to a document, without writing it. -/
def toText (o : CompileOptions) : m (Run Compiled) := do
  let merged ← readMerged o.sources
  pure (.within (.compiling o.script.text) do
    let d ← merged
    let b ← d.evaluate
    pure (output o.ending b))

/-- Compile sources and put the document into a file. -/
def toFile (processId : String) (o : CompileOptions) (out : Path) :
    m (Run Compiled) := do
  let compiled ← toText o
  match compiled.outcome with
  | .error _ => pure compiled
  | .ok result =>
    match ← Output.replaceFile processId out result.text with
    | .error e => pure ⟨.error e, compiled.journal⟩
    | .ok () =>
      let entry := Entry.documentWritten out.text result.text.utf8ByteSize
      pure ⟨.ok result, compiled.journal ++ [entry]⟩

end Compile

end Storyboard
