/-
Storyboard/Proofs/Subcommands.lean

The two subcommands agree.

Both compile first, which only reads, and both report a failure of that in the same words.
After it, `print` is done, and `compile` still has to put the text into a file.  If it says
that it has, then the file holds the text: what is moved to the output is what was written
to the temporary file, whatever stood in either place (`Output.read_of_replaceFile`).

What compiling is supposed to do is said without its stages (`Compiles`), and it succeeds in
these cases and no others (`outcome_toText_eq_ok_iff`).

Main result: `CommandLine.subcommands_agree`.
-/
import Storyboard.Proofs.AllOrNothing
import Storyboard.Proofs.Arguments
import Storyboard.Proofs.Precedence

namespace Storyboard

open FileSystem

/-! ### What is compiled -/

namespace Compile

variable {fs : FileSystem} {o : CompileOptions}

/-- All sources are scripts, and carrying out their merge leads to a board. -/
def Compiles (fs : FileSystem) (o : CompileOptions) (b : Board) : Prop :=
  ∃ docs, List.Forall₂ fs.HoldsScript o.sources docs ∧
    (Document.merge docs).evaluate.outcome = .ok b

/-- Compiling succeeds with the document of such a board, and otherwise not at all. -/
theorem outcome_toText_eq_ok_iff {c : Compiled} :
    (fs.run (toText o)).1.outcome = .ok c ↔
      ∃ b, Compiles fs o b ∧ c = output o.ending b := by
  constructor
  · intro h
    rw [outcome_toText, outcome_readMerged] at h
    cases htexts : o.sources.mapM fun p => (textOf p (fs.read p)).outcome with
    | error e =>
      rw [htexts] at h
      cases h
    | ok texts =>
      rw [htexts] at h
      cases hdocs : o.sources.mapM fun p => (textOf p (fs.read p) >>= parse p).outcome with
      | error e =>
        rw [hdocs] at h
        cases h
      | ok docs =>
        rw [hdocs] at h
        have hscripts : List.Forall₂ fs.HoldsScript o.sources docs :=
          (mapM_eq_ok_iff.mp hdocs).imp fun _ _ hp => outcome_script_eq_ok_iff.mp hp
        have hdone : (Document.merge docs).evaluate.outcome.map (output o.ending) = .ok c := h
        cases hevaluate : (Document.merge docs).evaluate.outcome with
        | error e =>
          rw [hevaluate] at hdone
          cases hdone
        | ok b =>
          rw [hevaluate] at hdone
          exact ⟨b, ⟨docs, hscripts, hevaluate⟩, (Except.ok.inj hdone).symm⟩
  · rintro ⟨b, ⟨docs, hdocs, hevaluate⟩, rfl⟩
    rw [outcome_toText_of_scripts hdocs, hevaluate]
    rfl

end Compile

/-! ### What is in the output -/

namespace FileSystem

variable {fs moved : FileSystem}

/-- A file that was moved is read where it was moved to. -/
theorem read_of_rename {source out : Path} {directory : Location} {name : String}
    {bytes : List UInt8} (htarget : fs.target source = .ok ⟨directory, some name⟩)
    (hfile : fs.node? (name :: directory) = some (.file bytes))
    (hrename : fs.rename source out = .ok moved) : moved.read out = .ok bytes := by
  obtain ⟨s, old, d, new, content, hsource, hdestination, hlength, hslash, hcontent, hnew, rfl⟩ :=
    rename_eq_ok hrename
  cases hsource.symm.trans htarget
  cases hcontent.symm.trans hfile
  let vacated := fs.erase (name :: directory)
  have hvacated : KeepsDirectories fs vacated := .erase_file hfile
  -- no directory is lost on the way, so the path of the output still leads there
  have hfilled : KeepsDirectories vacated (vacated.put (new :: d) (.file bytes)) :=
    .put _ fun h => hnew (node?_of_erase h)
  have hfound := node?_put_self vacated new d (.file bytes)
  have hlocate := locate_of_target (target_keeps hfilled (target_keeps hvacated hdestination))
    hlength hfound (by rw [hslash]; exact nofun)
  exact bind_eq_ok.mpr ⟨new :: d, hlocate, by rw [hfound]⟩

end FileSystem

/-- What has succeeded where an output was replaced. -/
theorem Output.replaceFile_eq_ok {processId : String} {out : Path} {text : String}
    {fs fs' : FileSystem} (h : fs.run (replaceFile processId out text) = (.ok (), fs')) :
    ∃ grown written, fs.run (makeParent out) = (.ok (), grown) ∧
      grown.write (temporaryPath processId out) (Utf8.encode text) = .ok written ∧
      written.rename (temporaryPath processId out) out = .ok fs' := by
  rw [replaceFile_eq] at h
  rcases hparent : fs.run (makeParent out) with ⟨r, grown⟩
  rw [hparent] at h
  cases r with
  | error e => cases h
  | ok _ =>
    simp only at h
    cases hwrite : grown.write (temporaryPath processId out) (Utf8.encode text) with
    | error e =>
      rw [hwrite] at h
      cases h
    | ok written =>
      rw [hwrite] at h
      simp only at h
      cases hrename : written.rename (temporaryPath processId out) out with
      | error e =>
        rw [hrename] at h
        cases h
      | ok moved =>
        rw [hrename] at h
        cases h
        exact ⟨grown, written, rfl, hwrite, hrename⟩

/-- An output that was replaced holds the text. -/
theorem Output.read_of_replaceFile {processId : String} {out : Path} {text : String}
    {fs fs' : FileSystem} (h : fs.run (replaceFile processId out text) = (.ok (), fs')) :
    fs'.read out = .ok (Utf8.encode text) := by
  obtain ⟨grown, written, -, hwrite, hrename⟩ := replaceFile_eq_ok h
  obtain ⟨directory, name, htarget, -, -, hplace, rfl⟩ := write_eq_ok hwrite
  exact read_of_rename (target_keeps (.put _ hplace) htarget)
    (node?_put_self grown name directory _) hrename

/-! ### Reports -/

namespace CommandLine

open Compile

variable {fs : FileSystem} {o : CompileOptions} {out : Path} {processId : String}
  {args : List String}

/-- What `print` does, by what compiling answers. -/
theorem run_print (h : parse args = some (.print o)) :
    fs.run (run processId args) =
      match (fs.run (toText o)).1.outcome with
      | .ok c => ({ code := 0, stdout := c.text }, fs)
      | .error e => (failureReport o.script e, fs) := by
  have hread := onlyReads_toText o fs
  rcases htext : fs.run (toText o) with ⟨compiled, fs'⟩
  rw [htext] at hread
  obtain rfl : fs' = fs := hread
  rw [run, h]
  simp only
  rw [perform, run_bind htext]
  cases compiled.outcome <;> rfl

/-- What `compile` does, by what compiling answers and what becomes of the output. -/
theorem run_compile (h : parse args = some (.compile o out)) :
    fs.run (run processId args) =
      match (fs.run (toText o)).1.outcome with
      | .error e => (failureReport o.script e, fs)
      | .ok c =>
        match fs.run (Output.replaceFile processId out c.text) with
        | (.error e, fs') => (failureReport o.script e, fs')
        | (.ok (), fs') => ({ code := 0, stderr := writtenText out c }, fs') := by
  have hrun := toFile_eq processId o out fs
  rw [run, h]
  simp only
  rcases hfile : fs.run (toFile processId o out) with ⟨compiled, fs'⟩
  rw [hfile] at hrun
  rw [perform, run_bind hfile]
  cases htext : (fs.run (toText o)).1.outcome with
  | error e =>
    rw [htext] at hrun
    cases hrun
    rw [htext]
    rfl
  | ok c =>
    rw [htext] at hrun
    simp only at hrun ⊢
    rcases hreplace : fs.run (Output.replaceFile processId out c.text) with ⟨r, after⟩
    rw [hreplace] at hrun
    cases r with
    | error e =>
      cases hrun
      rfl
    | ok _ =>
      cases hrun
      rfl

/-! ### The theorem -/

/-- **The subcommands agree.**  Options that name their files can be written out for `print`,
and what any arguments ask of `print` is what they ask of `compile` after an output is named.
However the same options are given to both, `print` exits with zero exactly if the sources
can be compiled.  Then it prints the document of the board, and if `compile` exits with zero
as well, the output holds the same bytes, and the counts that are reported are those of the
board.  If the sources cannot be compiled, then both exit with one, print nothing, say the
same of the failure, and leave all files as they were. -/
theorem subcommands_agree (fs : FileSystem) {o : CompileOptions}
    (hpaths : ∀ p ∈ o.sources, p.text ≠ "") {out : Path} (hout : out.text ≠ "")
    (processId processId' : String) :
    parse ("print" :: arguments o) = some (.print o) ∧
    (∀ args, parse ("compile" :: OptionName.out.assign out.text :: args) =
      (parse ("print" :: args)).map (Invocation.withOut out)) ∧
    ∀ printing compiling, parse ("print" :: printing) = some (.print o) →
      parse ("compile" :: compiling) = some (.compile o out) →
      let printed := fs.run (run processId ("print" :: printing))
      let compiled := fs.run (run processId' ("compile" :: compiling))
      (printed.1.code = 0 ↔ ∃ b, Compiles fs o b) ∧
      (∀ b, Compiles fs o b →
        printed = ({ code := 0, stdout := b.render o.ending }, fs) ∧
        (compiled.1.code = 0 →
          compiled.2.read out = .ok (Utf8.encode printed.1.stdout) ∧
          compiled.1.stdout = "" ∧
          compiled.1.stderr = "wrote " ++ out.text ++ " (" ++ toString b.size ++ " sprites, " ++
            toString b.recordCount ++ " records)\n")) ∧
      ((¬ ∃ b, Compiles fs o b) → ∃ words,
        printed = ({ code := 1, stderr := words }, fs) ∧
        compiled = ({ code := 1, stderr := words }, fs)) := by
  refine ⟨parse_arguments hpaths, parse_compile hout, fun printing compiling hprint hcompile => ?_⟩
  intro printed compiled
  have hprinted : printed = _ := run_print hprint
  have hcompiled : compiled = _ := run_compile hcompile
  -- both reports depend on what compiling answers, and on nothing else before that
  cases htext : (fs.run (toText o)).1.outcome with
  | error e =>
    have hnone : ¬ ∃ b, Compiles fs o b := by
      rintro ⟨b, hb⟩
      cases htext.symm.trans (outcome_toText_eq_ok_iff.mpr ⟨b, hb, rfl⟩)
    rw [htext] at hprinted hcompiled
    refine ⟨?_, fun b hb => absurd ⟨b, hb⟩ hnone, fun _ => ⟨_, hprinted, hcompiled⟩⟩
    rw [hprinted]
    have hcode : (1 : UInt8) ≠ 0 := by decide
    exact iff_of_false hcode hnone
  | ok c =>
    obtain ⟨b, hb, hc⟩ := outcome_toText_eq_ok_iff.mp htext
    rw [htext] at hprinted hcompiled
    refine ⟨?_, fun b' hb' => ?_, fun hnone => absurd ⟨b, hb⟩ hnone⟩
    · rw [hprinted]
      exact iff_of_true rfl ⟨b, hb⟩
    · -- the sources lead to one document only
      have hc : c = output o.ending b' :=
        Except.ok.inj (htext.symm.trans (outcome_toText_eq_ok_iff.mpr ⟨b', hb', rfl⟩))
      subst hc
      refine ⟨hprinted, fun hzero => ?_⟩
      rcases hreplace : fs.run (Output.replaceFile processId' out (output o.ending b').text) with
        ⟨r, after⟩
      simp only [hreplace] at hcompiled
      cases r with
      | error e =>
        rw [hcompiled] at hzero
        have hcode : (1 : UInt8) ≠ 0 := by decide
        exact absurd hzero hcode
      | ok _ =>
        rw [hcompiled, hprinted]
        exact ⟨Output.read_of_replaceFile hreplace, rfl, rfl⟩

/-- A script that is its own library, with the same options in two orders. -/
theorem subcommands_agree_in_two_orders :
    let fs : FileSystem :=
      { entries := [(["lamp.json"], .file (Utf8.encode "[[],[[\"lamp.png\"]]]"))] }
    let printing := ["--lib", "lamp.json", "--line-ending=lf", "--script=lamp.json"]
    let compiling := ["--script", "lamp.json", "--out=a.osb", "--line-ending", "lf", "--lib=lamp.json"]
    (fs.run (run "7" ("print" :: printing))).1.code = 0 ∧
      (fs.run (run "8" ("compile" :: compiling))).1.code = 0 ∧
      (fs.run (run "8" ("compile" :: compiling))).2.read ⟨"a.osb"⟩ =
        .ok (Utf8.encode (fs.run (run "7" ("print" :: printing))).1.stdout) := by
  intro fs printing compiling
  let o : CompileOptions := ⟨[⟨"lamp.json"⟩], ⟨"lamp.json"⟩, .lf⟩
  have hpaths : ∀ p ∈ o.sources, p.text ≠ "" := by decide +kernel
  have hout : (⟨"a.osb"⟩ : Path).text ≠ "" := by decide +kernel
  obtain ⟨-, -, hagree⟩ := subcommands_agree fs hpaths hout "7" "8"
  obtain ⟨hprints, hdocument, -⟩ :=
    hagree printing compiling (by decide +kernel) (by decide +kernel)
  have hprinted : (fs.run (run "7" ("print" :: printing))).1.code = 0 := by decide +kernel
  have hcompiled : (fs.run (run "8" ("compile" :: compiling))).1.code = 0 := by decide +kernel
  obtain ⟨b, hb⟩ := hprints.mp hprinted
  exact ⟨hprinted, hcompiled, ((hdocument b hb).2 hcompiled).1⟩

end CommandLine

end Storyboard
