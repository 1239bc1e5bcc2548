/-
Storyboard/Main.lean

The program: the command line on the files of the system.
-/
import Storyboard.CommandLine

namespace Storyboard

namespace Main

/-! ### The system's files -/

/-- The number and the wording that the system gives for an error. -/
def systemError : IO.Error → Option (UInt32 × String)
  | .alreadyExists _ code details => some (code, details)
  | .otherError code details => some (code, details)
  | .resourceBusy code details => some (code, details)
  | .resourceVanished code details => some (code, details)
  | .unsupportedOperation code details => some (code, details)
  | .hardwareFault code details => some (code, details)
  | .unsatisfiedConstraints code details => some (code, details)
  | .illegalOperation code details => some (code, details)
  | .protocolError code details => some (code, details)
  | .timeExpired code details => some (code, details)
  | .interrupted _ code details => some (code, details)
  | .noFileOrDirectory _ code details => some (code, details)
  | .invalidArgument _ code details => some (code, details)
  | .permissionDenied _ code details => some (code, details)
  | .resourceExhausted _ code details => some (code, details)
  | .inappropriateType _ code details => some (code, details)
  | .noSuchThing _ code details => some (code, details)
  | .unexpectedEof => none
  | .userError _ => none

/-- An error number, which some operations report with a minus sign. -/
def errorNumber (code : UInt32) : UInt32 := if 0x80000000 ≤ code then 0 - code else code

/-- The fault that an error of the system is. -/
def faultOf (e : IO.Error) : FileFault :=
  match systemError e with
  | none => .other (toString e)
  | some (code, details) =>
    match (errorNumber code).toNat with
    | 2 => .notFound
    | 16 => .busy
    | 17 => .alreadyExists
    | 20 => .notDirectory
    | 21 => .isDirectory
    | 36 => .nameTooLong
    | n => .other (details ++ " (os error " ++ toString n ++ ")")

/-- Try an operation of the system on a path. -/
def attempt {α : Type} (p : Path) (operation : IO α) : IO (Except FileFault α) :=
  if p.text.toList.contains '\x00' then pure (.error .nulInPath)
  else do
    match ← EIO.toBaseIO operation with
    | .ok a => pure (.ok a)
    | .error e => pure (.error (faultOf e))

instance : Disk IO where
  read p := attempt p do
    let bytes ← IO.FS.readBinFile p.text
    pure bytes.toList
  makeDirectory p := attempt p (IO.FS.createDir p.text)
  isDirectory p := do
    let real ← IO.FS.realPath p.text
    real.isDir
  write p bytes := attempt p (IO.FS.writeBinFile p.text ⟨bytes.toArray⟩)
  rename source destination := attempt destination (IO.FS.rename source.text destination.text)
  remove p := attempt p (IO.FS.removeFile p.text)

/-- The number of this process. -/
def processId : IO String := do
  let status ← EIO.toBaseIO (IO.FS.readFile "/proc/self/stat")
  match status with
  | .ok text => pure (String.ofList (text.toList.takeWhile Char.isDigit))
  | .error _ => pure "0"

end Main

end Storyboard

/-- Run the program. -/
def main (arguments : List String) : IO UInt32 := do
  let report ← Storyboard.CommandLine.run (← Storyboard.Main.processId) arguments
  (← IO.getStdout).putStr report.stdout
  (← IO.getStderr).putStr report.stderr
  pure report.code.toUInt32
