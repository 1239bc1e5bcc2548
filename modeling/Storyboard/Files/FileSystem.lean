/-
Storyboard/Files/FileSystem.lean

A file system held in memory.

Files and directories are found by their location, the names from the root on.
A path is walked name by name: every name but the last must lead to a directory,
two points lead to the directory above, and the root is above itself.  The
operations succeed and fail as Linux has them.
-/
import Storyboard.Files.Disk

namespace Storyboard

/-- Names from a file or directory up to the root, innermost first. -/
abbrev Location := List String

/-- What is at a location. -/
inductive Node where
  | file (bytes : List UInt8)
  | directory
  deriving DecidableEq

/-- Files and directories, and the directory that relative paths start from. -/
structure FileSystem where
  entries : List (Location × Node) := []
  workingDirectory : Location := []
  deriving DecidableEq

namespace FileSystem

/-! ### Contents -/

/-- What is at a location.  The root is always there. -/
def node? (fs : FileSystem) : Location → Option Node
  | [] => some .directory
  | l => fs.entries.lookup l

/-- Nothing is left at a location. -/
def erase (fs : FileSystem) (l : Location) : FileSystem :=
  { fs with entries := fs.entries.filter fun e => e.1 != l }

/-- A file or directory is put at a location, in place of what was there. -/
def put (fs : FileSystem) (l : Location) (n : Node) : FileSystem :=
  { fs with entries := (l, n) :: (fs.erase l).entries }

/-! ### What a change leaves alone -/

/-- What is not at a location is still there when that location is emptied. -/
theorem node?_erase_of_ne (fs : FileSystem) {l l' : Location} (h : l' ≠ l) :
    (fs.erase l).node? l' = fs.node? l' := by
  cases l' with
  | nil => rfl
  | cons name directory =>
    show (fs.entries.filter fun e => e.1 != l).lookup (name :: directory) =
      fs.entries.lookup (name :: directory)
    induction fs.entries with
    | nil => rfl
    | cons entry rest ih =>
      obtain ⟨k, n⟩ := entry
      by_cases hk : k = l
      · rw [List.filter_cons_of_neg (by simp [hk]), ih, hk, List.lookup_cons, beq_false_of_ne h]
      · rw [List.filter_cons_of_pos (by simp [hk]), List.lookup_cons, List.lookup_cons, ih]

theorem node?_put_of_ne (fs : FileSystem) {l l' : Location} (h : l' ≠ l) (n : Node) :
    (fs.put l n).node? l' = fs.node? l' := by
  rw [← node?_erase_of_ne fs h]
  cases l' with
  | nil => rfl
  | cons name directory =>
    show ((l, n) :: (fs.erase l).entries).lookup (name :: directory) = _
    rw [List.lookup_cons, beq_false_of_ne h]
    rfl

@[simp] theorem node?_put_self (fs : FileSystem) (name : String) (directory : Location) (n : Node) :
    (fs.put (name :: directory) n).node? (name :: directory) = some n :=
  List.lookup_cons_self

/-- What is put where nothing was can be taken away again. -/
theorem erase_put_of_none {fs : FileSystem} {name : String} {directory : Location}
    (h : fs.node? (name :: directory) = none) (n : Node) :
    (fs.put (name :: directory) n).erase (name :: directory) = fs := by
  have habsent : ∀ e ∈ fs.entries, (e.1 != name :: directory) = true := by
    intro e he
    have hne := List.lookup_eq_none_iff.mp h e he
    rw [bne, BEq.comm]
    exact hne
  obtain ⟨entries, workingDirectory⟩ := fs
  have hentries : entries.filter (fun e => e.1 != name :: directory) = entries :=
    List.filter_eq_self.mpr habsent
  simp only [put, erase, List.filter_cons, bne_self_eq_false, Bool.false_eq_true, if_false, hentries]

/-! ### Walking -/

/-- The most bytes that a path may have. -/
def maxPathLength : Nat := 4095

/-- The most bytes that a name may have. -/
def maxNameLength : Nat := 255

/-- What a path is refused for before it is walked. -/
def checkText (p : Path) : Except FileFault Unit :=
  if p.text.toList.contains '\x00' then .error .nulInPath
  else if p.text.isEmpty then .error .notFound
  else if maxPathLength < p.text.utf8ByteSize then .error .nameTooLong
  else .ok ()

/-- The names of a path. -/
def names (p : Path) : List String := p.segments.filter (· != "")

/-- Where the names of a path start from. -/
def startOf (fs : FileSystem) (p : Path) : Location :=
  if p.isAbsolute then [] else fs.workingDirectory

/-- The location is a directory. -/
def requireDirectory (fs : FileSystem) (l : Location) : Except FileFault Unit :=
  match fs.node? l with
  | some .directory => .ok ()
  | some (.file _) => .error .notDirectory
  | none => .error .notFound

/-- One name further, from a directory. -/
def enter (fs : FileSystem) (l : Location) (name : String) : Except FileFault Location :=
  if name = "." then .ok l
  else if name = ".." then .ok l.tail
  else if maxNameLength < name.utf8ByteSize then .error .nameTooLong
  else match fs.node? (name :: l) with
    | some _ => .ok (name :: l)
    | none => .error .notFound

/-- Walk along names. -/
def walk (fs : FileSystem) (l : Location) : List String → Except FileFault Location
  | [] => .ok l
  | name :: rest => do
    fs.requireDirectory l
    let next ← fs.enter l name
    fs.walk next rest

/-- Where an existing file or directory is. -/
def locate (fs : FileSystem) (p : Path) : Except FileFault Location := do
  checkText p
  let l ← fs.walk (fs.startOf p) (names p)
  if p.endsInSlash then fs.requireDirectory l
  pure l

/-- The last name of a path, after the directory that the names before it lead to.
Points and the root are no names. -/
structure Target where
  directory : Location
  name? : Option String

/-- Where a path leads to, whether or not its last name exists. -/
def target (fs : FileSystem) (p : Path) : Except FileFault Target := do
  checkText p
  let directory ← fs.walk (fs.startOf p) (names p).dropLast
  fs.requireDirectory directory
  pure ⟨directory, (names p).getLast?.filter fun name => name != "." && name != ".."⟩

/-- The location of a name in a directory. -/
def child (directory : Location) (name : String) : Except FileFault Location :=
  if maxNameLength < name.utf8ByteSize then .error .nameTooLong
  else .ok (name :: directory)

/-! ### Operations -/

/-- The bytes of a file. -/
def read (fs : FileSystem) (p : Path) : Except FileFault (List UInt8) := do
  let l ← fs.locate p
  match fs.node? l with
  | some (.file bytes) => .ok bytes
  | some .directory => .error .isDirectory
  | none => .error .notFound

/-- Whether a path leads to a directory. -/
def isDirectory (fs : FileSystem) (p : Path) : Bool :=
  match fs.locate p with
  | .ok l => fs.node? l == some .directory
  | .error _ => false

/-- Make one directory. -/
def makeDirectory (fs : FileSystem) (p : Path) : Except FileFault FileSystem := do
  let t ← fs.target p
  match t.name? with
  | none => .error .alreadyExists
  | some name =>
    let l ← child t.directory name
    if (fs.node? l).isSome then .error .alreadyExists
    else .ok (fs.put l .directory)

/-- Make a file, or give an existing one these bytes. -/
def write (fs : FileSystem) (p : Path) (bytes : List UInt8) : Except FileFault FileSystem := do
  let t ← fs.target p
  match t.name? with
  | none => .error .isDirectory
  | some name =>
    if p.endsInSlash then .error .isDirectory
    else
      let l ← child t.directory name
      if fs.node? l = some .directory then .error .isDirectory
      else .ok (fs.put l (.file bytes))

/-- Give a file another path, in place of a file that is there.  Only files can
be moved. -/
def rename (fs : FileSystem) (source destination : Path) : Except FileFault FileSystem := do
  checkText source
  checkText destination
  let s ← fs.target source
  let d ← fs.target destination
  match s.name?, d.name? with
  | some sourceName, some destinationName =>
    let old ← child s.directory sourceName
    match fs.node? old with
    | none => .error .notFound
    | some .directory => .error .isDirectory
    | some (.file bytes) =>
      let new ← child d.directory destinationName
      if source.endsInSlash || destination.endsInSlash then .error .notDirectory
      else if fs.node? new = some .directory then .error .isDirectory
      else .ok ((fs.erase old).put new (.file bytes))
  | _, _ => .error .busy

/-- Remove a file. -/
def remove (fs : FileSystem) (p : Path) : Except FileFault FileSystem := do
  let t ← fs.target p
  match t.name? with
  | none => .error .isDirectory
  | some name =>
    let l ← child t.directory name
    match fs.node? l with
    | none => .error .notFound
    | some .directory => .error .isDirectory
    | some (.file _) =>
      if p.endsInSlash then .error .notDirectory else .ok (fs.erase l)

/-! ### As a disk -/

/-- Change the file system, unless the operation fails. -/
def change (f : FileSystem → Except FileFault FileSystem) :
    StateM FileSystem (Except FileFault Unit) := fun fs =>
  match f fs with
  | .ok changed => (.ok (), changed)
  | .error e => (.error e, fs)

instance : Disk (StateM FileSystem) where
  read p := fun fs => (fs.read p, fs)
  makeDirectory p := change (·.makeDirectory p)
  isDirectory p := fun fs => (fs.isDirectory p, fs)
  write p bytes := change (·.write p bytes)
  rename source destination := change (·.rename source destination)
  remove p := change (·.remove p)

/-- What a program answers, and the file system that it leaves. -/
def run {α : Type} (fs : FileSystem) (x : StateM FileSystem α) : α × FileSystem := x fs

section Run

variable {α β : Type} {fs fs' : FileSystem}

theorem run_bind {x : StateM FileSystem α} {f : α → StateM FileSystem β} {a : α}
    (h : fs.run x = (a, fs')) : fs.run (x >>= f) = fs'.run (f a) := by
  show (match fs.run x with | (a, s) => s.run (f a)) = fs'.run (f a)
  rw [h]

theorem run_of_ok {f : FileSystem → Except FileFault FileSystem} (h : f fs = .ok fs') :
    fs.run (change f) = (.ok (), fs') := by
  rw [run, change, h]

theorem run_of_error {f : FileSystem → Except FileFault FileSystem} {e : FileFault}
    (h : f fs = .error e) : fs.run (change f) = (.error e, fs) := by
  rw [run, change, h]

end Run

end FileSystem

end Storyboard
