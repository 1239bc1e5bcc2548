/-
Storyboard/Failure.lean

Why a compile run, or a part of one, fails.

A failure names its cause; the wording is in `message`, and `causes` lists the
texts of the causes below it, outermost first.  Some failures only pass on the
words of a program that was run.
-/
import Storyboard.Files.Fault
import Storyboard.Json.Fault
import Storyboard.Script.Document

namespace Storyboard

/-! ### Causes -/

/-- Why a script cannot be carried out. -/
inductive ScriptFault where
  | blankEffectName
  | duplicateEffect (name : String)
  /-- An effect contains a call that only sprites understand. -/
  | spriteOnlyCall (effect : String) (call : Call)
  /-- The sprite with this number and image plays an effect that nobody
  defined. -/
  | unknownEffect (index : Nat) (image effect : String)
  /-- In the words of the program that was run. -/
  | reported (text : String)
  deriving DecidableEq

/-- The wording of a fault in a script. -/
def ScriptFault.message : ScriptFault → String
  | blankEffectName => "effect name must be non-empty"
  | duplicateEffect name => "duplicate effect '" ++ name ++ "'"
  | spriteOnlyCall effect call =>
    "effect '" ++ effect ++ "': '" ++ call.name ++ "' is only available on sprites"
  | unknownEffect index image effect =>
    "sprite #" ++ toString index ++ " ('" ++ image ++ "'): unknown effect '" ++ effect ++ "'"
  | reported text => text

/-- Why a text is not a script. -/
inductive FormatFault where
  | json (error : Json.Located)
  /-- The text of the file at this path. -/
  | inFile (path : String) (error : Json.Located)
  /-- In the words of the program that was run. -/
  | reported (text : String)
  deriving DecidableEq

/-- The wording of a fault in a text. -/
def FormatFault.message : FormatFault → String
  | json error => "parse script JSON: " ++ error.message
  | inFile path error => path ++ ": parse script JSON: " ++ error.message
  | reported text => text

/-- The steps of writing a document. -/
inductive OutputStep where
  | createDirectory (path : String)
  | writeTemporary (path : String)
  | moveInto (path : String)
  deriving DecidableEq

/-- What is said of a step that failed. -/
def OutputStep.message : OutputStep → String
  | createDirectory path => "failed to create output directory '" ++ path ++ "'"
  | writeTemporary path => "failed to write temp file '" ++ path ++ "'"
  | moveInto path => "failed to move output into '" ++ path ++ "'"

/-! ### Failures -/

/-- Why a run fails. -/
inductive Failure where
  /-- A script could not be carried out. -/
  | evaluation (fault : ScriptFault)
  /-- A file did not yield a text. -/
  | sourceRead (path : String) (cause : FileFault)
  /-- Data that a program does not accept. -/
  | validation (text : String)
  /-- A text is not a script. -/
  | serialization (fault : FormatFault)
  /-- The document could not be written. -/
  | output (step : OutputStep) (cause : FileFault)
  /-- Any other failure, outermost text first. -/
  | other (text : String) (causes : List String)
  deriving DecidableEq

/-- The kinds of failures that callers tell apart. -/
inductive FailureKind where
  | evaluation
  | sourceRead
  | validation
  | serialization
  | other
  deriving DecidableEq

namespace Failure

/-- The kind of a failure. -/
def kind : Failure → FailureKind
  | evaluation _ => .evaluation
  | sourceRead _ _ => .sourceRead
  | validation _ => .validation
  | serialization _ => .serialization
  | output _ _ => .other
  | other _ _ => .other

/-- The wording of a failure. -/
def message : Failure → String
  | evaluation fault => "script evaluation error: " ++ fault.message
  | sourceRead path cause => "source read error: '" ++ path ++ "': " ++ cause.message
  | validation text => "validation error: " ++ text
  | serialization fault => "serialization error: " ++ fault.message
  | output step _ => step.message
  | other text _ => text

/-- The texts of the causes below a failure, outermost first. -/
def causes : Failure → List String
  | sourceRead _ cause => [cause.message]
  | output _ cause => [cause.message]
  | other _ causes => causes
  | _ => []

end Failure

end Storyboard
