/-
Storyboard/Proofs/AllOrNothing.lean

Compiling to a file is all or nothing.

Reading and compiling only look at files.  Of what follows, making the directory of
the output is growth, and it is the only part that is not undone: the temporary file
stands where nothing was, so when it is moved or removed the place is as before, and
a failure to write it leaves nothing to remove.  Hence a run that fails ends in the
file system as it was after the directories were made, and a run that succeeds ends
in this file system with the document put at the output (`replaceFile_cases`).

Main result: `Compile.toFile_all_or_nothing`.
-/
import Storyboard.Compile
import Storyboard.Proofs.Files.Growth

namespace Storyboard

open FileSystem

namespace FileSystem

variable {fs : FileSystem}

/-! ### Temporary files -/

/-- The path does not lead to a file. -/
def Vacant (fs : FileSystem) (p : Path) : Prop :=
  ∀ directory name bytes, fs.target p = .ok ⟨directory, some name⟩ →
    fs.node? (name :: directory) ≠ some (.file bytes)

namespace Vacant

variable {p out : Path} {bytes : List UInt8} {written moved : FileSystem}

/-- Where no file is, none is removed. -/
theorem run_remove (h : Vacant fs p) : (fs.run (change (·.remove p))).2 = fs := by
  cases hremove : fs.remove p with
  | error e => rw [run_of_error hremove]
  | ok removed =>
    obtain ⟨directory, name, bytes, htarget, hfile, -⟩ := remove_eq_ok hremove
    exact absurd hfile (h directory name bytes htarget)

/-- A file that is written there stands where nothing was. -/
theorem write_eq_ok (h : Vacant fs p) (hwrite : fs.write p bytes = .ok written) :
    ∃ directory name, fs.target p = .ok ⟨directory, some name⟩ ∧
      name.utf8ByteSize ≤ maxNameLength ∧ p.endsInSlash = false ∧
      fs.node? (name :: directory) = none ∧ written = fs.put (name :: directory) (.file bytes) := by
  obtain ⟨directory, name, htarget, hlength, hslash, hplace, hput⟩ := FileSystem.write_eq_ok hwrite
  refine ⟨directory, name, htarget, hlength, hslash, ?_, hput⟩
  cases hnode : fs.node? (name :: directory) with
  | none => rfl
  | some n =>
    cases n with
    | file other => exact absurd hnode (h directory name other htarget)
    | directory => exact absurd hnode hplace

/-- It can be removed again, and then it is as if it had not been written. -/
theorem remove_written (h : Vacant fs p) (hwrite : fs.write p bytes = .ok written) :
    (written.run (change (·.remove p))).2 = fs := by
  obtain ⟨directory, name, htarget, hlength, hslash, hnone, rfl⟩ := h.write_eq_ok hwrite
  have hkeeps : KeepsDirectories fs (fs.put (name :: directory) (.file bytes)) :=
    .put_of_none _ hnone
  have hremove := remove_of_target (target_keeps hkeeps htarget) hlength
    (node?_put_self fs name directory _) hslash
  rw [erase_put_of_none hnone] at hremove
  rw [run_of_ok (f := (·.remove p)) hremove]

/-- If it is moved, only the place that it is moved to has changed. -/
theorem rename_written (h : Vacant fs p) (hwrite : fs.write p bytes = .ok written)
    (hrename : written.rename p out = .ok moved) :
    ∃ l, moved = fs.put l (.file bytes) ∧ fs.node? l ≠ some .directory ∧
      moved.locate out = .ok l ∧ moved.node? l = some (.file bytes) := by
  obtain ⟨directory, name, htarget, -, -, hnone, rfl⟩ := h.write_eq_ok hwrite
  have hkeeps : KeepsDirectories fs (fs.put (name :: directory) (.file bytes)) :=
    .put_of_none _ hnone
  obtain ⟨s, old, d, new, content, hsource, hdestination, hlength, hslash, hfile, hnew, rfl⟩ :=
    rename_eq_ok hrename
  -- what is moved is the file that was written
  have hsame := hsource.symm.trans (target_keeps hkeeps htarget)
  cases hsame
  rw [node?_put_self] at hfile
  cases hfile
  rw [erase_put_of_none hnone]
  have hvacated : KeepsDirectories (fs.put (name :: directory) (.file bytes)) fs := .of_put_file bytes
  have hfree : fs.node? (new :: d) ≠ some .directory := fun hd => hnew (hkeeps.directories _ hd)
  have hfilled : KeepsDirectories fs (fs.put (new :: d) (.file bytes)) := .put _ hfree
  have hfound := node?_put_self fs new d (.file bytes)
  refine ⟨new :: d, rfl, hfree, ?_, hfound⟩
  refine locate_of_target (target_keeps hfilled (target_keeps hvacated hdestination)) hlength hfound ?_
  intro hends
  rw [hslash] at hends
  cases hends

end Vacant

/-- The output holds the document, everything else is still what it was, and what is new
besides are directories on the way to it. -/
structure Replaced (out : Path) (bytes : List UInt8) (fs fs' : FileSystem) : Prop where
  workingDirectory : fs'.workingDirectory = fs.workingDirectory
  read : fs'.read out = .ok bytes
  kept : ∀ l n, fs'.locate out ≠ .ok l → fs.node? l = some n → fs'.node? l = some n
  made : ∀ l n, fs'.locate out ≠ .ok l → fs.node? l = none → fs'.node? l = some n →
    n = .directory ∧ ∃ p ∈ out.waysTo, fs'.locate p = .ok l

theorem Grown.replaced {out : Path} {bytes : List UInt8} {fs grown fs' : FileSystem} {l : Location}
    (h : Grown out.waysTo fs grown) (hput : fs' = grown.put l (.file bytes))
    (hplace : grown.node? l ≠ some .directory) (hlocate : fs'.locate out = .ok l)
    (hfound : fs'.node? l = some (.file bytes)) : Replaced out bytes fs fs' := by
  have hother : ∀ l', fs'.locate out ≠ .ok l' → fs'.node? l' = grown.node? l' := by
    intro l' hl'
    rw [hput, node?_put_of_ne]
    rintro rfl
    exact hl' hlocate
  have hkeeps : KeepsDirectories grown fs' := by
    refine ⟨by rw [hput]; rfl, fun l' hl' => ?_⟩
    rw [hother l' ?_]
    · exact hl'
    · intro hl
      rw [hlocate] at hl
      cases hl
      exact hplace hl'
  refine ⟨hkeeps.workingDirectory.trans h.workingDirectory, ?_, ?_, ?_⟩
  · exact bind_eq_ok.mpr ⟨l, hlocate, by rw [hfound]⟩
  · intro l' n hl' hn
    rw [hother l' hl']
    exact h.kept l' n hn
  · intro l' n hl' hnone hn
    rw [hother l' hl'] at hn
    obtain ⟨rfl, p, hp, hgrown⟩ := h.made l' n hnone hn
    exact ⟨rfl, p, hp, locate_keeps hkeeps hgrown hn⟩

end FileSystem

/-! ### Replacing a file -/

namespace Output

/-- No file and no directory has the name of the temporary file. -/
def TemporaryFree (processId : String) (out : Path) (fs : FileSystem) : Prop :=
  ∀ name, lastName? (temporaryPath processId out) = some name →
    ∀ directory, fs.node? (name :: directory) = none

section Replacing

variable (processId : String) (out : Path) (text : String)

/-- The program by the outcomes of its operations. -/
theorem replaceFile_eq (fs : FileSystem) :
    fs.run (replaceFile processId out text) =
      match fs.run (makeParent out) with
      | (.error e, grown) => (.error e, grown)
      | (.ok (), grown) =>
        match grown.write (temporaryPath processId out) (Utf8.encode text) with
        | .error e =>
          (.error (.output (.writeTemporary (temporaryPath processId out).text) e),
            (grown.run (change (·.remove (temporaryPath processId out)))).2)
        | .ok written =>
          match written.rename (temporaryPath processId out) out with
          | .error e =>
            (.error (.output (.moveInto out.text) e),
              (written.run (change (·.remove (temporaryPath processId out)))).2)
          | .ok moved => (.ok (), moved) := by
  rcases hparent : fs.run (makeParent out) with ⟨r, grown⟩
  rw [replaceFile, run_bind hparent]
  cases r with
  | error e => rfl
  | ok _ =>
    simp only
    generalize temporaryPath processId out = temporary
    generalize Utf8.encode text = bytes
    cases hwrite : grown.write temporary bytes with
    | error e =>
      have hrun : grown.run (Disk.write temporary bytes) = (.error e, grown) :=
        run_of_error (f := (·.write temporary bytes)) hwrite
      rw [run_bind hrun]
      rfl
    | ok written =>
      have hrun : grown.run (Disk.write temporary bytes) = (.ok (), written) :=
        run_of_ok (f := (·.write temporary bytes)) hwrite
      rw [run_bind hrun]
      simp only
      cases hrename : written.rename temporary out with
      | error e =>
        have hrun' : written.run (Disk.rename temporary out) = (.error e, written) :=
          run_of_error (f := (·.rename temporary out)) hrename
        rw [run_bind hrun']
        rfl
      | ok moved =>
        have hrun' : written.run (Disk.rename temporary out) = (.ok (), moved) :=
          run_of_ok (f := (·.rename temporary out)) hrename
        rw [run_bind hrun']
        rfl

variable {processId out}

/-- Directories on the way to the output do not fill the place of the temporary file with
a file. -/
theorem TemporaryFree.vacant {fs grown : FileSystem} (hfree : TemporaryFree processId out fs)
    (hgrown : Grown out.waysTo fs grown) : Vacant grown (temporaryPath processId out) := by
  intro directory name bytes htarget hfile
  obtain ⟨-, -, -, hname⟩ := target_eq_ok.mp htarget
  obtain ⟨hdirectory, -⟩ := hgrown.made _ _ (hfree name hname.symm directory) hfile
  cases hdirectory

/-- A run that fails leaves only directories behind, and one that succeeds the document. -/
theorem replaceFile_cases {fs : FileSystem} (hfree : TemporaryFree processId out fs) :
    (∃ step cause, (fs.run (replaceFile processId out text)).1 = .error (.output step cause) ∧
      Grown out.waysTo fs (fs.run (replaceFile processId out text)).2) ∨
    ((fs.run (replaceFile processId out text)).1 = .ok () ∧
      Replaced out (Utf8.encode text) fs (fs.run (replaceFile processId out text)).2) := by
  have hgrows := grows_makeParent out fs
  rw [replaceFile_eq]
  generalize fs.run (makeParent out) = start at hgrows
  obtain ⟨r, grown⟩ := start
  obtain ⟨hgrown, hfailed⟩ := hgrows
  have hvacant := hfree.vacant hgrown
  cases r with
  | error e =>
    obtain ⟨step, cause, rfl⟩ := hfailed e rfl
    exact .inl ⟨step, cause, rfl, hgrown⟩
  | ok _ =>
    simp only
    cases hwrite : grown.write (temporaryPath processId out) (Utf8.encode text) with
    | error e =>
      simp only
      rw [hvacant.run_remove]
      exact .inl ⟨_, e, rfl, hgrown⟩
    | ok written =>
      simp only
      cases hrename : written.rename (temporaryPath processId out) out with
      | error e =>
        simp only
        rw [hvacant.remove_written hwrite]
        exact .inl ⟨_, e, rfl, hgrown⟩
      | ok moved =>
        obtain ⟨l, hput, hplace, hlocate, hfound⟩ := hvacant.rename_written hwrite hrename
        exact .inr ⟨rfl, hgrown.replaced hput hplace hlocate hfound⟩

end Replacing

end Output

/-! ### Programs that only read -/

namespace FileSystem

variable {α β : Type}

/-- The program only looks at the file system. -/
def OnlyReads (x : StateM FileSystem α) : Prop := ∀ fs : FileSystem, (fs.run x).2 = fs

namespace OnlyReads

theorem pure (a : α) : OnlyReads (Pure.pure a) := fun _ => rfl

theorem bind {x : StateM FileSystem α} {f : α → StateM FileSystem β} (hx : OnlyReads x)
    (hf : ∀ a, OnlyReads (f a)) : OnlyReads (x >>= f) := by
  intro fs
  show ((fs.run x).2.run (f (fs.run x).1)).2 = fs
  rw [hf, hx]

theorem mapM {f : β → StateM FileSystem α} (hf : ∀ b, OnlyReads (f b)) (bs : List β) :
    OnlyReads (bs.mapM f) := by
  induction bs with
  | nil => exact pure []
  | cons b rest ih =>
    rw [List.mapM_cons]
    exact bind (hf b) fun _ => bind ih fun _ => pure _

end OnlyReads

end FileSystem

/-! ### Compiling to a file -/

namespace Compile

theorem onlyReads_toText (o : CompileOptions) :
    OnlyReads (toText o : StateM FileSystem (Run Compiled)) := by
  have hread : ∀ p, OnlyReads (Disk.read p : StateM FileSystem (Except FileFault (List UInt8))) :=
    fun _ _ => rfl
  exact .bind (.bind (.bind (.mapM hread _) fun _ => .pure _) fun _ => .pure _) fun _ => .pure _

/-- A run by what compiling answers and what writing the document does. -/
theorem toFile_eq (processId : String) (o : CompileOptions) (out : Path) (fs : FileSystem) :
    fs.run (toFile processId o out) =
      match (fs.run (toText o)).1.outcome with
      | .error _ => ((fs.run (toText o)).1, fs)
      | .ok c =>
        match fs.run (Output.replaceFile processId out c.text) with
        | (.error e, fs') => (⟨.error e, (fs.run (toText o)).1.journal⟩, fs')
        | (.ok (), fs') =>
          (⟨.ok c, (fs.run (toText o)).1.journal ++
            [.documentWritten out.text c.text.utf8ByteSize]⟩, fs') := by
  have hread := onlyReads_toText o fs
  rcases htext : fs.run (toText o) with ⟨compiled, fs'⟩
  rw [htext] at hread
  obtain rfl : fs' = fs := hread
  rw [toFile, run_bind htext]
  simp only
  cases hc : compiled.outcome with
  | error e => rfl
  | ok c =>
    simp only
    rcases hreplace : fs'.run (Output.replaceFile processId out c.text) with ⟨r, after⟩
    rw [run_bind hreplace]
    cases r with
    | error e => rfl
    | ok _ => rfl

/-- **Compiling to a file is all or nothing.**  If reading, parsing or evaluating fails,
the file system is exactly as before.  If a later step fails, everything is still what it
was, and what is new are directories on the way to the output.  If the run succeeds, the
output holds the text that is returned, everything else is still what it was, and what is
new besides the output are directories on the way to it. -/
theorem toFile_all_or_nothing (processId : String) (o : CompileOptions) (out : Path)
    (fs : FileSystem) (hfree : Output.TemporaryFree processId out fs) :
    (∀ e, (fs.run (toText o)).1.outcome = .error e →
      (fs.run (toFile processId o out)).1.outcome = .error e ∧
        (fs.run (toFile processId o out)).2 = fs) ∧
    (∀ c, (fs.run (toText o)).1.outcome = .ok c →
      (∃ step cause,
        (fs.run (toFile processId o out)).1.outcome = .error (.output step cause) ∧
          Grown out.waysTo fs (fs.run (toFile processId o out)).2) ∨
      ((fs.run (toFile processId o out)).1.outcome = .ok c ∧
        Replaced out (Utf8.encode c.text) fs (fs.run (toFile processId o out)).2)) := by
  rw [toFile_eq]
  constructor
  · intro e he
    rw [he]
    exact ⟨he, rfl⟩
  · intro c hc
    rw [hc]
    simp only
    have hcases := Output.replaceFile_cases c.text hfree
    generalize fs.run (Output.replaceFile processId out c.text) = result at hcases
    obtain ⟨r, after⟩ := result
    rcases hcases with ⟨step, cause, hfailed, hgrown⟩ | ⟨hdone, hreplaced⟩
    · obtain rfl : r = .error (.output step cause) := hfailed
      exact .inl ⟨step, cause, rfl, hgrown⟩
    · obtain rfl : r = .ok () := hdone
      exact .inr ⟨rfl, hreplaced⟩

/-- An output in a directory that is to be made is written.  An output that is a directory
is not, and the directory that was made on the way to it stays. -/
theorem toFile_into_directories :
    let fs : FileSystem :=
      { entries := [(["s.json"], .file (Utf8.encode "[]")), (["taken"], .directory)] }
    let o : CompileOptions := { script := ⟨"s.json"⟩ }
    (Output.TemporaryFree "7" ⟨"new/a.osb"⟩ fs ∧ Output.TemporaryFree "7" ⟨"new/../taken"⟩ fs) ∧
      Replaced ⟨"new/a.osb"⟩ (Utf8.encode "[Events]\r\n\r\n") fs
        (fs.run (toFile "7" o ⟨"new/a.osb"⟩)).2 ∧
      Grown (Path.waysTo ⟨"new/../taken"⟩) fs (fs.run (toFile "7" o ⟨"new/../taken"⟩)).2 ∧
      (fs.run (toFile "7" o ⟨"new/../taken"⟩)).2.isDirectory ⟨"new"⟩ = true := by
  intro fs o
  have hfree {out : Path} (temporary : String)
      (hlast : lastName? (Output.temporaryPath "7" out) = some temporary)
      (hscript : temporary ≠ "s.json") (htaken : temporary ≠ "taken") :
      Output.TemporaryFree "7" out fs := by
    intro name hname directory
    obtain rfl := Option.some.inj (hlast.symm.trans hname)
    refine List.lookup_eq_none_iff.mpr fun e he => bne_iff_ne.mpr fun hsame => ?_
    rcases List.mem_cons.mp he with rfl | he
    · exact hscript (List.cons.inj hsame).1
    · obtain rfl := List.mem_singleton.mp he
      exact htaken (List.cons.inj hsame).1
  have hwritten : Output.TemporaryFree "7" ⟨"new/a.osb"⟩ fs :=
    hfree "a.osb.7.tmp" (by decide +kernel) (by decide) (by decide)
  have hrefused : Output.TemporaryFree "7" ⟨"new/../taken"⟩ fs :=
    hfree "taken.7.tmp" (by decide +kernel) (by decide) (by decide)
  have htext : (fs.run (toText o)).1.outcome.toOption = some ⟨"[Events]\r\n\r\n", 0, 0⟩ := by
    decide +kernel
  have hc : (fs.run (toText o)).1.outcome = .ok ⟨"[Events]\r\n\r\n", 0, 0⟩ := by
    generalize (fs.run (toText o)).1.outcome = outcome at htext
    cases outcome with
    | error e => cases htext
    | ok c => rw [Option.some.inj htext]
  refine ⟨⟨hwritten, hrefused⟩, ?_, ?_, by decide +kernel⟩
  · rcases (toFile_all_or_nothing "7" o ⟨"new/a.osb"⟩ fs hwritten).2 _ hc with
      ⟨step, cause, hfailed, -⟩ | ⟨-, hreplaced⟩
    · have hok : (fs.run (toFile "7" o ⟨"new/a.osb"⟩)).1.outcome.toOption.isSome = true := by
        decide +kernel
      rw [hfailed] at hok
      cases hok
    · exact hreplaced
  · rcases (toFile_all_or_nothing "7" o ⟨"new/../taken"⟩ fs hrefused).2 _ hc with
      ⟨step, cause, -, hgrown⟩ | ⟨hdone, -⟩
    · exact hgrown
    · have hfailed : (fs.run (toFile "7" o ⟨"new/../taken"⟩)).1.outcome.toOption.isSome = false := by
        decide +kernel
      rw [hdone] at hfailed
      cases hfailed

end Compile

end Storyboard
