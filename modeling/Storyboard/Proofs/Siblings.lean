/-
Storyboard/Proofs/Siblings.lean

The temporary file stands beside the output.

For an output with a file name, the temporary path is the parent with another name joined
to it, and the parent was cut off so that nothing trails it.  So the parent of the
temporary path is the parent of the output, with the same text, and whatever is done for
the directory of the one is done for that of the other.

Making that directory climbs from it until a directory is found or made, and descends
again.  If it succeeds, the directory that it began with is there
(`isDirectory_of_createDirectories`), and it is the one in which the temporary file is
looked up (`target_join`).

Main result: `Output.temporaryPath_stands_beside_output`.
-/
import Storyboard.Proofs.Files.Components
import Storyboard.Proofs.Files.Growth

namespace Storyboard

namespace FileSystem

variable {fs fs' : FileSystem} {p : Path} {name : String} {directory : Location}

/-! ### Names in a directory -/

/-- The path leads to a directory.  An empty one leads to where relative paths start. -/
structure LeadsTo (fs : FileSystem) (p : Path) (directory : Location) : Prop where
  walk : fs.walk (fs.startOf p) (names p) = .ok directory
  found : fs.node? directory = some .directory

theorem leadsTo_of_isDirectory (h : fs.isDirectory p = true) : ∃ l, LeadsTo fs p l := by
  obtain ⟨l, hlocate, hfound⟩ := isDirectory_iff.mp h
  exact ⟨l, (locate_eq_ok.mp hlocate).2.1, hfound⟩

theorem names_join (p : Path) (h : Path.IsName name) : names (p.join name) = names p ++ [name] := by
  obtain ⟨before, hbefore, hjoin⟩ := Path.segments_join p h
  have hname : [name].filter (· != "") = [name] := by simp [h.notEmpty]
  rw [names, names, hjoin, List.filter_append, hname]
  rcases hbefore with hp | hp
  · rw [hp]
  · rw [hp, List.filter_append]
    exact congrArg (· ++ [name]) (List.append_nil _).symm

/-- A name that is joined to a path is looked up in the directory that the path leads to. -/
theorem target_join (h : LeadsTo fs p directory) (hname : Path.IsName name)
    (hcheck : checkText (p.join name) = .ok ()) :
    fs.target (p.join name) = .ok ⟨directory, some name⟩ := by
  have hstart : fs.startOf (p.join name) = fs.startOf p := by
    rw [startOf, startOf, Path.isAbsolute_join p hname]
  refine target_eq_ok.mpr ⟨hcheck, ?_, h.found, ?_⟩
  · rw [hstart, names_join p hname, List.dropLast_concat]
    exact h.walk
  · rw [lastName?, names_join p hname, List.getLast?_concat]
    exact (Option.filter_eq_some_iff.mpr ⟨rfl, by simp [hname.notHere, hname.notUp]⟩).symm

/-! ### Operations as programs -/

/-- Making a directory makes it there, or changes nothing. -/
theorem run_makeDirectory (fs : FileSystem) (p : Path) :
    (∃ made, fs.run (Disk.makeDirectory p) = (.ok (), made) ∧ made.isDirectory p = true) ∨
      ∃ e, fs.run (Disk.makeDirectory p) = (.error e, fs) := by
  cases hmake : fs.makeDirectory p with
  | ok made =>
    have hrun := run_of_ok (f := (·.makeDirectory p)) hmake
    exact .inl ⟨made, hrun, isDirectory_of_makeDirectory hmake⟩
  | error e => exact .inr ⟨e, run_of_error (f := (·.makeDirectory p)) hmake⟩

theorem run_isDirectory (fs : FileSystem) (p : Path) :
    fs.run (Disk.isDirectory p) = (fs.isDirectory p, fs) := rfl

end FileSystem

namespace Output

open FileSystem

variable {fs fs' : FileSystem} {p : Path} {pending more : List Path}

/-! ### Climbing and descending -/

/-- Where climbing succeeds, the first directory is there, or it is left for later. -/
theorem climb_cons_eq_ok {above : List Path}
    (h : fs.run (climb (p :: above) pending) = (.ok more, fs')) :
    (more = pending ∧ fs'.isDirectory p = true) ∨
      fs.run (climb above (p :: pending)) = (.ok more, fs') := by
  rw [climb] at h
  rcases run_makeDirectory fs p with ⟨made, hrun, hdirectory⟩ | ⟨e, hrun⟩
  · rw [run_bind hrun] at h
    cases h
    exact .inl ⟨rfl, hdirectory⟩
  · rw [run_bind hrun] at h
    cases e with
    | notFound => exact .inr h
    | alreadyExists =>
      simp only [run_bind (run_isDirectory fs p)] at h
      split at h
      · rename_i hdirectory
        cases h
        exact .inl ⟨rfl, hdirectory⟩
      · cases h
    | _ => cases h

/-- Where descending succeeds, the first directory is there before the others are made. -/
theorem descend_cons_eq_ok {below : List Path}
    (h : fs.run (descend (p :: below)) = (.ok (), fs')) :
    ∃ mid : FileSystem, mid.isDirectory p = true ∧ mid.run (descend below) = (.ok (), fs') := by
  rw [descend] at h
  rcases run_makeDirectory fs p with ⟨made, hrun, hdirectory⟩ | ⟨e, hrun⟩
  · rw [run_bind hrun] at h
    exact ⟨made, hdirectory, h⟩
  · rw [run_bind hrun] at h
    cases e with
    | alreadyExists =>
      simp only [run_bind (run_isDirectory fs p)] at h
      split at h
      · rename_i hdirectory
        exact ⟨fs, hdirectory, h⟩
      · cases h
    | _ => cases h

/-- Climbing puts directories before those that are pending. -/
theorem climb_eq_ok {chain : List Path} (h : fs.run (climb chain pending) = (.ok more, fs')) :
    ∃ front, more = front ++ pending := by
  induction chain generalizing pending with
  | nil =>
    cases h
    exact ⟨[], rfl⟩
  | cons p above ih =>
    rcases climb_cons_eq_ok h with ⟨rfl, -⟩ | habove
    · exact ⟨[], rfl⟩
    · obtain ⟨front, rfl⟩ := ih habove
      exact ⟨front ++ [p], by rw [List.append_assoc, List.singleton_append]⟩

/-- Descending ends with the last directory. -/
theorem isDirectory_of_descend {front : List Path}
    (h : fs.run (descend (front ++ [p])) = (.ok (), fs')) : fs'.isDirectory p = true := by
  induction front generalizing fs with
  | nil =>
    obtain ⟨mid, hdirectory, hrest⟩ := descend_cons_eq_ok h
    cases hrest
    exact hdirectory
  | cons q front ih =>
    obtain ⟨mid, -, hrest⟩ := descend_cons_eq_ok h
    exact ih hrest

/-- **Directories that are made are there**, the one they were made for included. -/
theorem isDirectory_of_createDirectories {q : Path} (hq : q.ancestry.head? = some p)
    (h : fs.run (createDirectories q) = (.ok (), fs')) : fs'.isDirectory p = true := by
  obtain ⟨above, habove⟩ := List.head?_eq_some_iff.mp hq
  rw [createDirectories, habove] at h
  rcases hclimb : fs.run (climb (p :: above) []) with ⟨r, mid⟩
  rw [run_bind hclimb] at h
  cases r with
  | error e => cases h
  | ok more =>
    rcases climb_cons_eq_ok hclimb with ⟨rfl, hdirectory⟩ | hrest
    · cases h
      exact hdirectory
    · obtain ⟨front, rfl⟩ := climb_eq_ok hrest
      exact isDirectory_of_descend h

/-- Where the directory of an output is made, the parent leads to it. -/
theorem leadsTo_of_makeParent {out parent : Path} (hparent : out.parent? = some parent)
    (hstart : fs.node? fs.workingDirectory = some .directory)
    (h : fs.run (makeParent out) = (.ok (), fs')) : ∃ directory, LeadsTo fs' parent directory := by
  rw [makeParent, hparent] at h
  simp only at h
  split at h
  · -- the output is to stand where relative paths start from
    rename_i hempty
    cases h
    refine ⟨fs.workingDirectory, ?_, hstart⟩
    obtain rfl : parent = ⟨""⟩ := congrArg Path.mk (String.isEmpty_iff.mp hempty)
    rfl
  · rename_i hempty
    rcases hmade : fs.run (createDirectories parent) with ⟨r, made⟩
    rw [run_bind hmade] at h
    cases r with
    | error e => cases h
    | ok _ =>
      cases h
      rcases Path.ancestry_of_trimmed (Path.components_of_parent? hparent).1 with rfl | rfl | hhead
      · exact absurd rfl hempty
      · exact ⟨[], rfl, rfl⟩
      · exact leadsTo_of_isDirectory (isDirectory_of_createDirectories hhead hmade)

/-! ### Temporary names -/

/-- A name as it is used for a temporary file. -/
def temporaryName (processId name : String) : String := name ++ "." ++ processId ++ ".tmp"

section Temporary

variable {out parent : Path} {processId name : String}

theorem isName_temporaryName (hid : '/' ∉ processId.toList) (hname : '/' ∉ name.toList) :
    Path.IsName (temporaryName processId name) := by
  -- a letter of the ending tells it from points and from no text
  have hletter : 't' ∈ (temporaryName processId name).toList := by simp [temporaryName]
  have hne {text : String} (htext : 't' ∉ text.toList) : temporaryName processId name ≠ text := by
    rintro rfl
    exact htext hletter
  refine ⟨?_, hne (by decide), hne (by decide), hne (by decide)⟩
  simp [temporaryName, hid, hname]

theorem temporaryName_ne : temporaryName processId name ≠ name := by
  intro h
  have hlength := congrArg String.length h
  have hending : ".tmp".length = 4 := rfl
  rw [temporaryName, String.length_append, String.length_append, String.length_append] at hlength
  omega

theorem temporaryPath_of_name (hname : out.fileName? = some name)
    (hparent : out.parent? = some parent) :
    temporaryPath processId out = parent.join (temporaryName processId name) := by
  rw [temporaryPath, Path.withFileName, hname, hparent]
  rfl

theorem temporaryPath_of_noName (h : out.fileName? = none) :
    temporaryPath processId out = out.join (temporaryName processId defaultName) := by
  rw [temporaryPath, Path.withFileName, h]
  rfl

theorem slash_not_mem_toString (n : Nat) : '/' ∉ (toString n).toList := by
  rw [Nat.toString_eq_ofList_toDigits, String.toList_ofList]
  intro hmem
  have hdigit := Nat.isDigit_of_mem_toDigits (b := 10) (by decide) (by decide) hmem
  exact absurd hdigit (by decide)

end Temporary

/-! ### The theorem -/

/-- **The temporary file stands beside the output.**  For an output with a file name, whatever
slashes and points are in its path or trail it, the temporary path has the same parent, and
under it the name of the output with the process and an ending behind it, so the two
differ.  Making the directory of the one is the same as making that of the other, and where
it succeeds the parent leads to a directory, in which the name of the temporary file is
looked up; what is new are directories on the way to it.  For an output without a file name,
the default name with the same ending is appended to the path. -/
theorem temporaryPath_stands_beside_output (processId : Nat) (out : Path) :
    let temporary := temporaryPath (toString processId) out
    let marked := temporaryName (toString processId)
    (∀ name, out.fileName? = some name → ∃ parent : Path,
      out.parent? = some parent ∧ out.components = parent.components ++ [.name name] ∧
      temporary.parent? = some parent ∧ temporary.fileName? = some (marked name) ∧
      temporary.components = parent.components ++ [.name (marked name)] ∧
      temporary.components ≠ out.components ∧
      (∀ {m : Type → Type} [Monad m] [Disk m],
        (makeParent temporary : m (Except Failure Unit)) = makeParent out) ∧
      ∀ fs made : FileSystem, fs.node? fs.workingDirectory = some .directory →
        fs.run (makeParent out) = (.ok (), made) →
          Grown parent.ancestry fs made ∧ ∃ directory, LeadsTo made parent directory ∧
            (checkText temporary = .ok () →
              made.target temporary = .ok ⟨directory, some (marked name)⟩)) ∧
    (out.fileName? = none →
      (∀ name, out.components.getLast? ≠ some (.name name)) ∧
      temporary.text =
        out.text ++ (if out.text = "" ∨ out.endsInSlash = true then "" else "/") ++
          marked "storyboard.osb") := by
  intro temporary marked
  have hid := slash_not_mem_toString processId
  constructor
  · intro name hname
    obtain ⟨parent, hparent, htrimmed, hcomponents⟩ := Path.exists_parent hname
    have hmarked : Path.IsName (marked name) :=
      isName_temporaryName hid (Path.slash_not_mem_fileName hname)
    have htemporary : temporary = parent.join (marked name) := temporaryPath_of_name hname hparent
    have habove : temporary.parent? = some parent := by
      rw [htemporary, Path.parent?_join parent hmarked, htrimmed]
    have hsteps : temporary.components = parent.components ++ [.name (marked name)] := by
      rw [htemporary, Path.components_join parent hmarked]
    refine ⟨parent, hparent, hcomponents, habove, ?_, hsteps, ?_, ?_, ?_⟩
    · rw [htemporary]
      exact Path.fileName?_join parent hmarked
    · -- both have one component more than the parent, and these differ
      rw [hsteps, hcomponents]
      intro h
      have hlast := (List.cons.inj (List.append_cancel_left h)).1
      exact temporaryName_ne (Path.Component.name.inj hlast)
    · -- the program looks at nothing but the parent
      intro m _ _
      rw [makeParent, makeParent, habove, hparent]
    · intro fs made hstart hmade
      have hgrown := (grows_makeParent out fs).1
      rw [hmade, Path.waysTo, hparent] at hgrown
      obtain ⟨directory, hleads⟩ := leadsTo_of_makeParent hparent hstart hmade
      refine ⟨hgrown, directory, hleads, fun hcheck => ?_⟩
      rw [htemporary] at hcheck ⊢
      exact target_join hleads hmarked hcheck
  · intro hnone
    refine ⟨fun name hname => ?_, ?_⟩
    · rw [Path.fileName?_eq_some_iff.mpr hname] at hnone
      cases hnone
    · show (temporaryPath (toString processId) out).text = _
      rw [temporaryPath_of_noName hnone, Path.text_join]
      rfl

/-- Points and slashes that trail a name, and a path that ends without one. -/
theorem temporaryPath_stands_beside_output_of_points :
    let out : Path := ⟨"maps//./a.osb/./"⟩
    let fs : FileSystem := {}
    let made : FileSystem := { entries := [(["maps"], .directory)] }
    (out.fileName? = some "a.osb" ∧ fs.node? fs.workingDirectory = some .directory ∧
      fs.run (makeParent out) = (.ok (), made) ∧ checkText (temporaryPath "7" out) = .ok ()) ∧
    ((temporaryPath "7" out).parent? = some ⟨"maps"⟩ ∧
      (temporaryPath "7" out).components ≠ out.components ∧
      fs.run (makeParent (temporaryPath "7" out)) = (.ok (), made) ∧
      made.target (temporaryPath "7" out) = .ok ⟨["maps"], some "a.osb.7.tmp"⟩) ∧
    Path.fileName? ⟨"maps/.."⟩ = none ∧
      (temporaryPath "7" ⟨"maps/.."⟩).text = "maps/../storyboard.osb.7.tmp" := by
  intro out fs made
  have hok {ε α : Type} {x : Except ε α} {a : α} (h : x.toOption = some a) : x = .ok a := by
    cases x with
    | error e => cases h
    | ok b => rw [Option.some.inj h]
  have hname : out.fileName? = some "a.osb" := by decide
  have hparent : out.parent? = some ⟨"maps"⟩ := by decide
  have hmade : fs.run (makeParent out) = (.ok (), made) :=
    Prod.ext (hok (by decide +kernel)) (by decide +kernel)
  have hcheck : checkText (temporaryPath "7" out) = .ok () := hok (by decide +kernel)
  have hmaps : made.walk (made.startOf ⟨"maps"⟩) (names ⟨"maps"⟩) = .ok ["maps"] :=
    hok (by decide +kernel)
  refine ⟨⟨hname, rfl, hmade, hcheck⟩, ?_, by decide, ?_⟩
  · obtain ⟨parent, hsome, -, habove, -, -, hne, hsame, hprovides⟩ :=
      (temporaryPath_stands_beside_output 7 out).1 _ hname
    obtain rfl := Option.some.inj (hparent.symm.trans hsome)
    obtain ⟨-, directory, hleads, htarget⟩ := hprovides fs made rfl hmade
    cases hmaps.symm.trans hleads.walk
    refine ⟨habove, hne, ?_, htarget hcheck⟩
    rw [← hmade, ← hsame]
    rfl
  · exact ((temporaryPath_stands_beside_output 7 ⟨"maps/.."⟩).2 (by decide)).2

end Output

end Storyboard
