/-
Storyboard/Files/Disk.lean

The file operations that a compile run needs.

They are the operations of an operating system, one call each, and each may
fail; what runs need beyond them (directories with their parents, replacing a
file at once) is built from them.
-/
import Storyboard.Files.Fault
import Storyboard.Files.Path

namespace Storyboard

/-- A place that keeps files. -/
class Disk (m : Type → Type) where
  /-- The bytes of a file. -/
  read : Path → m (Except FileFault (List UInt8))
  /-- Make one directory. -/
  makeDirectory : Path → m (Except FileFault Unit)
  /-- Whether a path leads to a directory. -/
  isDirectory : Path → m Bool
  /-- Make a file with these bytes, or give them to a file that exists. -/
  write : Path → List UInt8 → m (Except FileFault Unit)
  /-- Give a file another path, in place of a file that is there. -/
  rename : Path → Path → m (Except FileFault Unit)
  /-- Remove a file. -/
  remove : Path → m (Except FileFault Unit)

end Storyboard
