/-
Storyboard/Proofs/Files/Walking.lean

Paths lead to the same places as long as the directories stay.

To walk a path is to go from directory to directory, so what files there are on the
way does not matter.  A path that leads to a directory leads there still in every
file system that has all the directories of the first one (`locate_keeps`), and so
does one whose last name is not looked up (`target_keeps`).

What an operation does when it succeeds is said once for each of them, as what it
has found and what it leaves behind.  An operation that fails changes nothing.
-/
import Storyboard.Files.FileSystem

namespace Storyboard

namespace FileSystem

variable {fs fs' : FileSystem}

theorem bind_eq_ok {α β : Type} {x : Except FileFault α} {f : α → Except FileFault β} {b : β} :
    (x >>= f) = .ok b ↔ ∃ a, x = .ok a ∧ f a = .ok b := by
  cases x with
  | error e =>
    constructor
    · intro h
      cases h
    · rintro ⟨a, ha, -⟩
      cases ha
  | ok a =>
    constructor
    · intro h
      exact ⟨a, rfl, h⟩
    · rintro ⟨c, hc, h⟩
      cases hc
      exact h

/-! ### Directories that stay -/

/-- Emptying a place adds nothing. -/
theorem node?_of_erase {l l' : Location} {n : Node} (h : (fs.erase l).node? l' = some n) :
    fs.node? l' = some n := by
  by_cases hl : l' = l
  · subst hl
    cases l' with
    | nil => exact h
    | cons name directory =>
      have hnone : (fs.erase (name :: directory)).node? (name :: directory) = none := by
        refine List.lookup_eq_none_iff.mpr fun e he => ?_
        exact bne_comm.trans (List.mem_filter.mp he).2
      rw [hnone] at h
      cases h
  · rwa [node?_erase_of_ne fs hl] at h

/-- All directories are still there, and relative paths start where they did. -/
structure KeepsDirectories (fs fs' : FileSystem) : Prop where
  workingDirectory : fs'.workingDirectory = fs.workingDirectory
  directories : ∀ l, fs.node? l = some .directory → fs'.node? l = some .directory

namespace KeepsDirectories

/-- A place that is no directory can be filled. -/
theorem put {name : String} {directory : Location} (n : Node)
    (h : fs.node? (name :: directory) ≠ some .directory) :
    KeepsDirectories fs (fs.put (name :: directory) n) where
  workingDirectory := rfl
  directories := by
    intro l hl
    have hne : l ≠ name :: directory := by
      rintro rfl
      exact h hl
    rw [node?_put_of_ne fs hne]
    exact hl

theorem put_of_none {name : String} {directory : Location} (n : Node)
    (h : fs.node? (name :: directory) = none) :
    KeepsDirectories fs (fs.put (name :: directory) n) := by
  apply put n
  rw [h]
  exact (Option.some_ne_none _).symm

/-- A file can be taken away again. -/
theorem of_put_file {name : String} {directory : Location} (bytes : List UInt8) :
    KeepsDirectories (fs.put (name :: directory) (.file bytes)) fs where
  workingDirectory := rfl
  directories := by
    intro l hl
    have hne : l ≠ name :: directory := by
      rintro rfl
      rw [node?_put_self] at hl
      cases hl
    rw [node?_put_of_ne fs hne] at hl
    exact hl

/-- A file can be removed. -/
theorem erase_file {l : Location} {bytes : List UInt8}
    (h : fs.node? l = some (.file bytes)) : KeepsDirectories fs (fs.erase l) where
  workingDirectory := rfl
  directories := by
    intro l' hl'
    have hne : l' ≠ l := by
      rintro rfl
      rw [h] at hl'
      cases hl'
    rwa [node?_erase_of_ne fs hne]

end KeepsDirectories

theorem requireDirectory_eq_ok {l : Location} :
    fs.requireDirectory l = .ok () ↔ fs.node? l = some .directory := by
  rw [requireDirectory]
  split
  · rename_i h
    exact iff_of_true rfl h
  · rename_i bytes h
    rw [h]
    exact iff_of_false (fun h => by cases h) (fun h => by cases h)
  · rename_i h
    rw [h]
    exact iff_of_false (fun h => by cases h) (fun h => by cases h)

/-! ### Walks -/

theorem walk_cons_eq_ok {l l' : Location} {name : String} {rest : List String} :
    fs.walk l (name :: rest) = .ok l' ↔
      fs.node? l = some .directory ∧ ∃ next, fs.enter l name = .ok next ∧
        fs.walk next rest = .ok l' := by
  rw [walk, bind_eq_ok]
  constructor
  · rintro ⟨⟨⟩, hl, h⟩
    exact ⟨requireDirectory_eq_ok.mp hl, bind_eq_ok.mp h⟩
  · rintro ⟨hl, h⟩
    exact ⟨(), requireDirectory_eq_ok.mpr hl, bind_eq_ok.mpr h⟩

theorem walk_append {l mid l' : Location} {names more : List String}
    (h : fs.walk l names = .ok mid) (hmore : fs.walk mid more = .ok l') :
    fs.walk l (names ++ more) = .ok l' := by
  induction names generalizing l with
  | nil =>
    cases h
    exact hmore
  | cons name rest ih =>
    obtain ⟨hl, next, hnext, hrest⟩ := walk_cons_eq_ok.mp h
    exact walk_cons_eq_ok.mpr ⟨hl, next, hnext, ih hrest⟩

/-- A walk to a directory starts from a directory. -/
theorem directory_of_walk {l l' : Location} {names : List String} (h : fs.walk l names = .ok l')
    (hl' : fs.node? l' = some .directory) : fs.node? l = some .directory := by
  cases names with
  | nil =>
    cases h
    exact hl'
  | cons name rest => exact (walk_cons_eq_ok.mp h).1

theorem enter_keeps (hkeeps : KeepsDirectories fs fs') {l next : Location} {name : String}
    (h : fs.enter l name = .ok next) (hnext : fs.node? next = some .directory) :
    fs'.enter l name = .ok next := by
  rw [enter] at h ⊢
  split
  · rename_i hpoint
    rwa [if_pos hpoint] at h
  rename_i hpoint
  rw [if_neg hpoint] at h
  split
  · rename_i hup
    rwa [if_pos hup] at h
  rename_i hup
  rw [if_neg hup] at h
  split
  · rename_i hlong
    rw [if_pos hlong] at h
    cases h
  · rename_i hlong
    rw [if_neg hlong] at h
    split at h
    · cases h
      rw [hkeeps.directories _ hnext]
    · cases h

/-- A walk to a directory only passes directories. -/
theorem walk_keeps (hkeeps : KeepsDirectories fs fs') {l l' : Location} {names : List String}
    (h : fs.walk l names = .ok l') (hl' : fs.node? l' = some .directory) :
    fs'.walk l names = .ok l' := by
  induction names generalizing l with
  | nil => exact h
  | cons name rest ih =>
    obtain ⟨hl, next, hnext, hrest⟩ := walk_cons_eq_ok.mp h
    have hdirectory := directory_of_walk hrest hl'
    exact walk_cons_eq_ok.mpr
      ⟨hkeeps.directories l hl, next, enter_keeps hkeeps hnext hdirectory, ih hrest⟩

/-! ### Where paths lead -/

/-- The last name of a path, unless it is one of the points. -/
def lastName? (p : Path) : Option String :=
  (names p).getLast?.filter fun name => name != "." && name != ".."

theorem target_eq_ok {p : Path} {t : Target} :
    fs.target p = .ok t ↔
      checkText p = .ok () ∧ fs.walk (fs.startOf p) (names p).dropLast = .ok t.directory ∧
        fs.node? t.directory = some .directory ∧ t.name? = lastName? p := by
  rw [target, bind_eq_ok]
  constructor
  · rintro ⟨⟨⟩, hcheck, h⟩
    obtain ⟨directory, hwalk, h⟩ := bind_eq_ok.mp h
    obtain ⟨⟨⟩, hdirectory, h⟩ := bind_eq_ok.mp h
    cases h
    exact ⟨hcheck, hwalk, requireDirectory_eq_ok.mp hdirectory, rfl⟩
  · obtain ⟨directory, name?⟩ := t
    rintro ⟨hcheck, hwalk, hdirectory, rfl⟩
    refine ⟨(), hcheck, bind_eq_ok.mpr ⟨directory, hwalk, bind_eq_ok.mpr ⟨(), ?_, rfl⟩⟩⟩
    exact requireDirectory_eq_ok.mpr hdirectory

theorem locate_eq_ok {p : Path} {l : Location} :
    fs.locate p = .ok l ↔
      checkText p = .ok () ∧ fs.walk (fs.startOf p) (names p) = .ok l ∧
        (p.endsInSlash = true → fs.node? l = some .directory) := by
  rw [locate, bind_eq_ok]
  constructor
  · rintro ⟨⟨⟩, hcheck, h⟩
    obtain ⟨place, hwalk, h⟩ := bind_eq_ok.mp h
    split at h
    · obtain ⟨⟨⟩, hdirectory, h⟩ := bind_eq_ok.mp h
      cases h
      exact ⟨hcheck, hwalk, fun _ => requireDirectory_eq_ok.mp hdirectory⟩
    · rename_i hslash
      cases h
      exact ⟨hcheck, hwalk, fun hends => absurd hends hslash⟩
  · rintro ⟨hcheck, hwalk, hends⟩
    refine ⟨(), hcheck, bind_eq_ok.mpr ⟨l, hwalk, ?_⟩⟩
    split
    · rename_i hslash
      exact bind_eq_ok.mpr ⟨(), requireDirectory_eq_ok.mpr (hends hslash), rfl⟩
    · rfl

theorem isDirectory_iff {p : Path} :
    fs.isDirectory p = true ↔ ∃ l, fs.locate p = .ok l ∧ fs.node? l = some .directory := by
  rw [isDirectory]
  cases fs.locate p with
  | error e =>
    refine iff_of_false (fun h => nomatch h) ?_
    rintro ⟨l, hl, -⟩
    cases hl
  | ok l =>
    simp only [beq_iff_eq]
    constructor
    · intro h
      exact ⟨l, rfl, h⟩
    · rintro ⟨l', hl', h⟩
      cases hl'
      exact h

theorem startOf_keeps (hkeeps : KeepsDirectories fs fs') (p : Path) :
    fs'.startOf p = fs.startOf p := by
  rw [startOf, startOf, hkeeps.workingDirectory]

theorem target_keeps (hkeeps : KeepsDirectories fs fs') {p : Path} {t : Target}
    (h : fs.target p = .ok t) : fs'.target p = .ok t := by
  obtain ⟨hcheck, hwalk, hdirectory, hname⟩ := target_eq_ok.mp h
  refine target_eq_ok.mpr ⟨hcheck, ?_, hkeeps.directories _ hdirectory, hname⟩
  rw [startOf_keeps hkeeps]
  exact walk_keeps hkeeps hwalk hdirectory

theorem locate_keeps (hkeeps : KeepsDirectories fs fs') {p : Path} {l : Location}
    (h : fs.locate p = .ok l) (hl : fs.node? l = some .directory) : fs'.locate p = .ok l := by
  obtain ⟨hcheck, hwalk, -⟩ := locate_eq_ok.mp h
  refine locate_eq_ok.mpr ⟨hcheck, ?_, fun _ => hkeeps.directories l hl⟩
  rw [startOf_keeps hkeeps]
  exact walk_keeps hkeeps hwalk hl

/-- A name that is allowed has a location in every directory. -/
theorem child_eq_ok {directory l : Location} {name : String} (h : child directory name = .ok l) :
    l = name :: directory ∧ name.utf8ByteSize ≤ maxNameLength := by
  rw [child] at h
  split at h
  · cases h
  · rename_i hlong
    cases h
    exact ⟨rfl, Nat.le_of_not_lt hlong⟩

/-- What is put at the location of a path's last name is found by the path. -/
theorem locate_of_target {p : Path} {directory : Location} {name : String} {n : Node}
    (h : fs.target p = .ok ⟨directory, some name⟩) (hlength : name.utf8ByteSize ≤ maxNameLength)
    (hn : fs.node? (name :: directory) = some n)
    (hends : p.endsInSlash = true → n = .directory) : fs.locate p = .ok (name :: directory) := by
  obtain ⟨hcheck, hwalk, hdirectory, hname⟩ := target_eq_ok.mp h
  obtain ⟨hlast, hpoints⟩ := Option.filter_eq_some_iff.mp hname.symm
  rw [Bool.and_eq_true, bne_iff_ne, bne_iff_ne] at hpoints
  obtain ⟨before, hnames⟩ := List.getLast?_eq_some_iff.mp hlast
  rw [hnames, List.dropLast_concat] at hwalk
  have henter : fs.enter directory name = .ok (name :: directory) := by
    rw [enter, if_neg hpoints.1, if_neg hpoints.2, if_neg (Nat.not_lt.mpr hlength), hn]
  refine locate_eq_ok.mpr ⟨hcheck, ?_, fun hslash => ?_⟩
  · rw [hnames]
    exact walk_append hwalk (walk_cons_eq_ok.mpr ⟨hdirectory, _, henter, rfl⟩)
  · rw [hn, hends hslash]

/-! ### Operations that succeed -/

theorem makeDirectory_eq_ok {p : Path} (h : fs.makeDirectory p = .ok fs') :
    ∃ directory name, fs.target p = .ok ⟨directory, some name⟩ ∧
      name.utf8ByteSize ≤ maxNameLength ∧ fs.node? (name :: directory) = none ∧
      fs' = fs.put (name :: directory) .directory := by
  obtain ⟨⟨directory, name?⟩, htarget, h⟩ := bind_eq_ok.mp h
  cases name? with
  | none => cases h
  | some name =>
    obtain ⟨l, hchild, h⟩ := bind_eq_ok.mp h
    obtain ⟨rfl, hlength⟩ := child_eq_ok hchild
    split at h
    · cases h
    · rename_i hnone
      cases h
      exact ⟨directory, name, htarget, hlength, Option.not_isSome_iff_eq_none.mp hnone, rfl⟩

/-- A directory is found where it was made. -/
theorem locate_put_directory {p : Path} {directory : Location} {name : String}
    (htarget : fs.target p = .ok ⟨directory, some name⟩)
    (hlength : name.utf8ByteSize ≤ maxNameLength) (hnone : fs.node? (name :: directory) = none) :
    (fs.put (name :: directory) .directory).locate p = .ok (name :: directory) := by
  have hkeeps : KeepsDirectories fs (fs.put (name :: directory) .directory) :=
    .put_of_none .directory hnone
  exact locate_of_target (target_keeps hkeeps htarget) hlength
    (node?_put_self fs name directory .directory) fun _ => rfl

theorem isDirectory_of_makeDirectory {p : Path} (h : fs.makeDirectory p = .ok fs') :
    fs'.isDirectory p = true := by
  obtain ⟨directory, name, htarget, hlength, hnone, rfl⟩ := makeDirectory_eq_ok h
  exact isDirectory_iff.mpr ⟨name :: directory, locate_put_directory htarget hlength hnone,
    node?_put_self fs name directory .directory⟩

theorem write_eq_ok {p : Path} {bytes : List UInt8} (h : fs.write p bytes = .ok fs') :
    ∃ directory name, fs.target p = .ok ⟨directory, some name⟩ ∧
      name.utf8ByteSize ≤ maxNameLength ∧ p.endsInSlash = false ∧
      fs.node? (name :: directory) ≠ some .directory ∧
      fs' = fs.put (name :: directory) (.file bytes) := by
  obtain ⟨⟨directory, name?⟩, htarget, h⟩ := bind_eq_ok.mp h
  cases name? with
  | none => cases h
  | some name =>
    simp only at h
    split at h
    · cases h
    · rename_i hslash
      obtain ⟨l, hchild, h⟩ := bind_eq_ok.mp h
      obtain ⟨rfl, hlength⟩ := child_eq_ok hchild
      split at h
      · cases h
      · rename_i hdirectory
        cases h
        exact ⟨directory, name, htarget, hlength, eq_false_of_ne_true hslash, hdirectory, rfl⟩

theorem rename_eq_ok {source destination : Path} (h : fs.rename source destination = .ok fs') :
    ∃ s old d new bytes, fs.target source = .ok ⟨s, some old⟩ ∧
      fs.target destination = .ok ⟨d, some new⟩ ∧ new.utf8ByteSize ≤ maxNameLength ∧
      destination.endsInSlash = false ∧ fs.node? (old :: s) = some (.file bytes) ∧
      fs.node? (new :: d) ≠ some .directory ∧
      fs' = (fs.erase (old :: s)).put (new :: d) (.file bytes) := by
  obtain ⟨⟨⟩, -, h⟩ := bind_eq_ok.mp h
  obtain ⟨⟨⟩, -, h⟩ := bind_eq_ok.mp h
  obtain ⟨⟨s, old?⟩, hsource, h⟩ := bind_eq_ok.mp h
  obtain ⟨⟨d, new?⟩, hdestination, h⟩ := bind_eq_ok.mp h
  cases old? with
  | none => cases h
  | some old =>
    cases new? with
    | none => cases h
    | some new =>
      obtain ⟨l, hchild, h⟩ := bind_eq_ok.mp h
      obtain ⟨rfl, -⟩ := child_eq_ok hchild
      split at h
      · cases h
      · cases h
      · rename_i bytes hfile
        obtain ⟨l, hchild, h⟩ := bind_eq_ok.mp h
        obtain ⟨rfl, hlength⟩ := child_eq_ok hchild
        split at h
        · cases h
        · rename_i hslash
          rw [Bool.or_eq_true, not_or] at hslash
          split at h
          · cases h
          · rename_i hdirectory
            cases h
            exact ⟨s, old, d, new, bytes, hsource, hdestination, hlength,
              eq_false_of_ne_true hslash.2, hfile, hdirectory, rfl⟩

theorem remove_eq_ok {p : Path} (h : fs.remove p = .ok fs') :
    ∃ directory name bytes, fs.target p = .ok ⟨directory, some name⟩ ∧
      fs.node? (name :: directory) = some (.file bytes) ∧
      fs' = fs.erase (name :: directory) := by
  obtain ⟨⟨directory, name?⟩, htarget, h⟩ := bind_eq_ok.mp h
  cases name? with
  | none => cases h
  | some name =>
    obtain ⟨l, hchild, h⟩ := bind_eq_ok.mp h
    obtain ⟨rfl, -⟩ := child_eq_ok hchild
    split at h
    · cases h
    · cases h
    · rename_i bytes hfile
      split at h
      · cases h
      · cases h
        exact ⟨directory, name, bytes, htarget, hfile, rfl⟩

/-- A file that a path leads to can be removed. -/
theorem remove_of_target {p : Path} {directory : Location} {name : String} {bytes : List UInt8}
    (h : fs.target p = .ok ⟨directory, some name⟩) (hlength : name.utf8ByteSize ≤ maxNameLength)
    (hfile : fs.node? (name :: directory) = some (.file bytes)) (hends : p.endsInSlash = false) :
    fs.remove p = .ok (fs.erase (name :: directory)) := by
  refine bind_eq_ok.mpr ⟨_, h, bind_eq_ok.mpr ⟨name :: directory, ?_, ?_⟩⟩
  · rw [child, if_neg (Nat.not_lt.mpr hlength)]
  · rw [hfile, hends]
    rfl

end FileSystem

end Storyboard
