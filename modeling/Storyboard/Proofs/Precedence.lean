/-
Storyboard/Proofs/Precedence.lean

Which fault a compile run reports.

A run has three stages: it reads all sources, then parses all texts, then carries out
the merged document.  The two first stages are repetitions that stop at the first
source with a fault (`mapM_eq_error_iff`), and a stage is only reached if the one before
has been through all sources.  So what is wrong with one source is never hidden by a
later stage of another.

What is asked of a source is said by the file system and the readers alone
(`HoldsText`, `HoldsScript`).

Main result: `Compile.earliest_stage_is_reported`.
-/
import Storyboard.Proofs.Attempts
import Storyboard.Proofs.ReadBack

namespace Storyboard

/-! ### Repeated runs -/

/-- What a repeated run answers depends on what its steps answer. -/
theorem Run.outcome_mapM {α β : Type} (f : α → Run β) (as : List α) :
    (as.mapM f).outcome = as.mapM fun a => (f a).outcome := by
  induction as with
  | nil => rfl
  | cons a rest ih =>
    rw [List.mapM_cons, Run.outcome_bind, mapM_cons_eq, ← ih]
    congr 1
    funext b
    rw [Run.outcome_bind]
    cases (rest.mapM f).outcome <;> rfl

/-! ### Sources -/

/-- A fault in a file is told in its own words after the path. -/
theorem FormatFault.message_inFile (path : String) (e : Json.Located) :
    (inFile path e).message = path ++ ": " ++ (json e).message := by
  have hwords : ": parse script JSON: " = ": " ++ "parse script JSON: " := rfl
  calc path ++ ": parse script JSON: " ++ e.message
      = path ++ (": " ++ "parse script JSON: ") ++ e.message := by rw [← hwords]
    _ = path ++ ": " ++ "parse script JSON: " ++ e.message := by rw [← String.append_assoc]
    _ = path ++ ": " ++ ("parse script JSON: " ++ e.message) := String.append_assoc

namespace FileSystem

variable (fs : FileSystem) (p : Path)

/-- The file at a path is a text. -/
def HoldsText (text : String) : Prop := fs.read p = .ok (Utf8.encode text)

/-- The file at a path is a script. -/
def HoldsScript (d : Document) : Prop :=
  ∃ text, fs.HoldsText p text ∧ Document.read .text (Utf8.encode text) = .ok d

/-- There is some text at a path. -/
def IsText : Prop := ∃ text, fs.HoldsText p text

/-- There is some script at a path. -/
def IsScript : Prop := ∃ d, fs.HoldsScript p d

/-- There is no text at a path: there is no file, or it is not to be read, or it is not
UTF-8. -/
def HoldsNoText (cause : FileFault) : Prop :=
  fs.read p = .error cause ∨
    ∃ bytes, fs.read p = .ok bytes ∧ (∀ text, bytes ≠ Utf8.encode text) ∧ cause = .notUtf8

variable {fs p}

theorem HoldsText.unique {text other : String} (h : fs.HoldsText p text)
    (h' : fs.HoldsText p other) : text = other := by
  have hbytes : Utf8.encode text = Utf8.encode other := Except.ok.inj (h.symm.trans h')
  have htext := Utf8.text?_encode text
  rw [hbytes, Utf8.text?_encode] at htext
  exact (Option.some.inj htext).symm

/-- Scripts are texts. -/
theorem IsScript.isText (h : fs.IsScript p) : fs.IsText p := by
  obtain ⟨d, text, htext, -⟩ := h
  exact ⟨text, htext⟩

/-- Whether there is a script is seen by reading the text, without the file. -/
theorem HoldsText.isScript_iff {text : String} (h : fs.HoldsText p text) :
    fs.IsScript p ↔ (Document.read .text (Utf8.encode text)).toOption.isSome = true := by
  cases hread : Document.read .text (Utf8.encode text) with
  | error fault =>
    refine iff_of_false ?_ Bool.false_ne_true
    rintro ⟨d, other, hother, hsame⟩
    rw [h.unique hother, hsame] at hread
    cases hread
  | ok d => exact iff_of_true ⟨d, text, h, hread⟩ rfl

theorem HoldsNoText.not_isText {cause : FileFault} (h : fs.HoldsNoText p cause) :
    ¬ fs.IsText p := by
  rintro ⟨text, htext⟩
  rcases h with hfailed | ⟨bytes, hbytes, hnot, -⟩
  · cases hfailed.symm.trans htext
  · exact hnot text (Except.ok.inj (hbytes.symm.trans htext))

end FileSystem

open FileSystem

namespace Compile

/-! ### The stages -/

theorem outcome_textOf_eq_ok_iff {fs : FileSystem} {p : Path} {text : String} :
    (textOf p (fs.read p)).outcome = .ok text ↔ fs.HoldsText p text := by
  rw [HoldsText]
  cases fs.read p with
  | error e => exact iff_of_false nofun nofun
  | ok bytes =>
    rw [textOf, Except.ok.injEq, ← Utf8.text?_eq_some_iff]
    cases Utf8.text? bytes with
    | none => exact iff_of_false nofun nofun
    | some s => rw [Run.outcome_pure, Except.ok.injEq, Option.some.injEq]

theorem outcome_textOf_eq_error_iff {fs : FileSystem} {p : Path} {failure : Failure} :
    (textOf p (fs.read p)).outcome = .error failure ↔
      ∃ cause, fs.HoldsNoText p cause ∧ failure = .sourceRead p.text cause := by
  cases hread : fs.read p with
  | error e =>
    constructor
    · intro h
      exact ⟨e, .inl hread, (Except.error.inj h).symm⟩
    · rintro ⟨cause, hnone | ⟨bytes, hbytes, -⟩, rfl⟩
      · obtain rfl : e = cause := Except.error.inj (hread.symm.trans hnone)
        rfl
      · cases hread.symm.trans hbytes
  | ok bytes =>
    rw [textOf]
    cases htext : Utf8.text? bytes with
    | none =>
      constructor
      · intro h
        refine ⟨.notUtf8, .inr ⟨bytes, hread, fun text hsame => ?_, rfl⟩, (Except.error.inj h).symm⟩
        rw [Utf8.text?_eq_some_iff.mpr hsame] at htext
        cases htext
      · rintro ⟨cause, hnone | ⟨-, -, -, rfl⟩, rfl⟩
        · cases hread.symm.trans hnone
        · rfl
    | some text =>
      constructor
      · intro h
        cases h
      · rintro ⟨cause, hnone, -⟩
        have hholds : fs.HoldsText p text := by
          rw [HoldsText, hread, Utf8.text?_eq_some_iff.mp htext]
        exact absurd ⟨text, hholds⟩ hnone.not_isText

/-- Each source is read from the same file system. -/
theorem run_mapM_read (fs : FileSystem) (paths : List Path) :
    fs.run (paths.mapM Disk.read) = (paths.map fs.read, fs) := by
  induction paths with
  | nil => rfl
  | cons p rest ih =>
    rw [List.mapM_cons]
    have hread : fs.run (Disk.read p) = (fs.read p, fs) := rfl
    rw [run_bind hread, run_bind ih]
    rfl

/-- The first stage. -/
theorem outcome_readTexts (fs : FileSystem) (paths : List Path) :
    (fs.run (readTexts paths)).1.outcome = paths.mapM fun p => (textOf p (fs.read p)).outcome := by
  rw [readTexts, run_bind (run_mapM_read fs paths)]
  show ((paths.zip (paths.map fs.read)).mapM fun (path, content) => textOf path content).outcome = _
  rw [Run.outcome_mapM, ← List.map_prod_left_eq_zip, List.mapM_map]
  rfl

/-- The second stage, from the texts that the first has found. -/
theorem outcome_mergeTexts (paths : List Path) (texts : List String) :
    (mergeTexts paths texts).outcome =
      ((paths.zip texts).mapM fun s => (parse s.1 s.2).outcome).map Document.merge := by
  show (_ >>= _ : Run Document).outcome = _
  rw [Run.outcome_bind, Run.outcome_mapM]
  cases (paths.zip texts).mapM fun s => (parse s.1 s.2).outcome <;> rfl

/-- The second stage, of sources whose texts are known. -/
theorem mapM_parse {fs : FileSystem} {paths : List Path} {texts : List String}
    (h : List.Forall₂ fs.HoldsText paths texts) :
    ((paths.zip texts).mapM fun s => (parse s.1 s.2).outcome) =
      paths.mapM fun p => (textOf p (fs.read p) >>= parse p).outcome := by
  induction h with
  | nil => rfl
  | @cons p text paths texts hp hrest ih =>
    rw [List.zip_cons_cons, mapM_cons_eq, mapM_cons_eq, ih, Run.outcome_bind,
      outcome_textOf_eq_ok_iff.mpr hp]
    rfl

theorem outcome_parse_eq_ok_iff {p : Path} {text : String} {d : Document} :
    (parse p text).outcome = .ok d ↔ Document.read .text (Utf8.encode text) = .ok d := by
  delta parse
  cases Document.read .text (Utf8.encode text) with
  | error e => exact iff_of_false nofun nofun
  | ok other => rw [Run.outcome_pure, Except.ok.injEq, Except.ok.injEq]

theorem outcome_parse_eq_error_iff {p : Path} {text : String} {failure : Failure} :
    (parse p text).outcome = .error failure ↔
      ∃ fault, Document.read .text (Utf8.encode text) = .error fault ∧
        failure = .serialization (.inFile p.text fault) := by
  delta parse
  cases Document.read .text (Utf8.encode text) with
  | error fault =>
    constructor
    · intro h
      exact ⟨fault, rfl, (Except.error.inj h).symm⟩
    · rintro ⟨other, hother, rfl⟩
      obtain rfl := Except.error.inj hother
      rfl
  | ok d => exact iff_of_false nofun (by rintro ⟨_, ⟨⟩, _⟩)

/-- Reading, parsing and merging, by what each source holds. -/
theorem outcome_readMerged (fs : FileSystem) (paths : List Path) :
    (fs.run (readMerged paths)).1.outcome =
      (paths.mapM fun p => (textOf p (fs.read p)).outcome).bind fun _ =>
        (paths.mapM fun p => (textOf p (fs.read p) >>= parse p).outcome).map Document.merge := by
  rcases hrun : fs.run (readTexts paths) with ⟨texts, fs'⟩
  have houtcome := outcome_readTexts fs paths
  rw [hrun] at houtcome
  rw [readMerged, run_bind hrun]
  show (texts >>= mergeTexts paths).outcome = _
  rw [Run.outcome_bind, ← houtcome]
  cases htexts : texts.outcome with
  | error e => rfl
  | ok found =>
    have hholds : List.Forall₂ fs.HoldsText paths found :=
      (mapM_eq_ok_iff.mp (houtcome.symm.trans htexts)).imp fun _ _ h =>
        outcome_textOf_eq_ok_iff.mp h
    show (mergeTexts paths found).outcome = Except.map _ _
    rw [outcome_mergeTexts, mapM_parse hholds]

/-! ### What is reported -/

theorem outcome_script_eq_ok_iff {fs : FileSystem} {p : Path} {d : Document} :
    (textOf p (fs.read p) >>= parse p).outcome = .ok d ↔ fs.HoldsScript p d := by
  rw [Run.outcome_bind]
  cases htext : (textOf p (fs.read p)).outcome with
  | error failure =>
    refine iff_of_false nofun ?_
    rintro ⟨text, hholds, -⟩
    cases htext.symm.trans (outcome_textOf_eq_ok_iff.mpr hholds)
  | ok text =>
    have hholds : fs.HoldsText p text := outcome_textOf_eq_ok_iff.mp htext
    show (parse p text).outcome = .ok d ↔ _
    rw [outcome_parse_eq_ok_iff]
    constructor
    · exact fun hread => ⟨text, hholds, hread⟩
    · rintro ⟨other, hother, hread⟩
      rw [hholds.unique hother]
      exact hread

/-- Whether there is a text at a path is seen by reading it. -/
instance (fs : FileSystem) (p : Path) : Decidable (fs.IsText p) :=
  decidable_of_iff ((textOf p (fs.read p)).outcome.toOption.isSome = true) <| by
    rw [IsText]
    simp only [← outcome_textOf_eq_ok_iff]
    cases (textOf p (fs.read p)).outcome with
    | error failure => exact iff_of_false nofun nofun
    | ok text => exact iff_of_true rfl ⟨text, rfl⟩

instance (fs : FileSystem) (p : Path) : Decidable (fs.IsScript p) :=
  decidable_of_iff ((textOf p (fs.read p) >>= parse p).outcome.toOption.isSome = true) <| by
    rw [IsScript]
    simp only [← outcome_script_eq_ok_iff]
    cases (textOf p (fs.read p) >>= parse p).outcome with
    | error failure => exact iff_of_false nofun nofun
    | ok d => exact iff_of_true rfl ⟨d, rfl⟩

section Reported

variable {fs : FileSystem} {o : CompileOptions}

/-- A source without a text is reported, whatever the others hold. -/
theorem outcome_toText_of_noText (h : ∃ p ∈ o.sources, ¬ fs.IsText p) :
    ∃ p ∈ o.sources, ∃ cause, fs.HoldsNoText p cause ∧
      (fs.run (toText o)).1.outcome = .error (.sourceRead p.text cause) := by
  obtain ⟨p, hp, hnone⟩ := h
  rw [outcome_toText, outcome_readMerged]
  cases hread : o.sources.mapM fun p => (textOf p (fs.read p)).outcome with
  | ok texts =>
    obtain ⟨text, htext⟩ := exists_mapM_eq_ok_iff.mp ⟨texts, hread⟩ p hp
    exact absurd ⟨text, outcome_textOf_eq_ok_iff.mp htext⟩ hnone
  | error failure =>
    obtain ⟨before, q, after, hsources, -, hq⟩ := mapM_eq_error_iff.mp hread
    obtain ⟨cause, hcause, rfl⟩ := outcome_textOf_eq_error_iff.mp hq
    exact ⟨q, hsources ▸ List.mem_append_right before List.mem_cons_self, cause, hcause, rfl⟩

variable (htexts : ∀ p ∈ o.sources, fs.IsText p)
include htexts

/-- Where all sources are texts, the run parses them. -/
theorem outcome_toText_of_texts :
    (fs.run (toText o)).1.outcome =
      ((o.sources.mapM fun p => (textOf p (fs.read p) >>= parse p).outcome).map
        Document.merge).bind fun d => d.evaluate.outcome.map (output o.ending) := by
  obtain ⟨texts, hread⟩ : ∃ texts, (o.sources.mapM fun p => (textOf p (fs.read p)).outcome) =
      .ok texts :=
    exists_mapM_eq_ok_iff.mpr fun p hp => by
      obtain ⟨text, htext⟩ := htexts p hp
      exact ⟨text, outcome_textOf_eq_ok_iff.mpr htext⟩
  rw [outcome_toText, outcome_readMerged, hread]
  rfl

/-- The first text that is no script is reported, whatever the scripts before it do. -/
theorem outcome_toText_of_noScript (h : ∃ p ∈ o.sources, ¬ fs.IsScript p) :
    ∃ before p after text fault, o.sources = before ++ p :: after ∧
      (∀ q ∈ before, fs.IsScript q) ∧ fs.HoldsText p text ∧
      Document.read .text (Utf8.encode text) = .error fault ∧
      (fs.run (toText o)).1.outcome = .error (.serialization (.inFile p.text fault)) := by
  obtain ⟨p, hp, hnone⟩ := h
  rw [outcome_toText_of_texts htexts]
  cases hscripts : o.sources.mapM fun p => (textOf p (fs.read p) >>= parse p).outcome with
  | ok docs =>
    obtain ⟨d, hd⟩ := exists_mapM_eq_ok_iff.mp ⟨docs, hscripts⟩ p hp
    exact absurd ⟨d, outcome_script_eq_ok_iff.mp hd⟩ hnone
  | error failure =>
    obtain ⟨before, q, after, hsources, hbefore, hq⟩ := mapM_eq_error_iff.mp hscripts
    obtain ⟨text, htext⟩ := htexts q (hsources ▸ List.mem_append_right before List.mem_cons_self)
    rw [Run.outcome_bind, outcome_textOf_eq_ok_iff.mpr htext] at hq
    obtain ⟨fault, hfault, rfl⟩ := outcome_parse_eq_error_iff.mp hq
    refine ⟨before, q, after, text, fault, hsources, fun c hc => ?_, htext, hfault, rfl⟩
    obtain ⟨d, hd⟩ := hbefore c hc
    exact ⟨d, outcome_script_eq_ok_iff.mp hd⟩

end Reported

/-- Where all sources are scripts, the run carries out their merge. -/
theorem outcome_toText_of_scripts {fs : FileSystem} {o : CompileOptions} {docs : List Document}
    (h : List.Forall₂ fs.HoldsScript o.sources docs) :
    (fs.run (toText o)).1.outcome =
      (Document.merge docs).evaluate.outcome.map (output o.ending) := by
  have hscripts : (o.sources.mapM fun p => (textOf p (fs.read p) >>= parse p).outcome) = .ok docs :=
    mapM_eq_ok_iff.mpr (h.imp fun _ _ hp => outcome_script_eq_ok_iff.mpr hp)
  have htexts : ∀ p ∈ o.sources, fs.IsText p := by
    intro p hp
    obtain ⟨d, hd⟩ := exists_mapM_eq_ok_iff.mp ⟨docs, hscripts⟩ p hp
    exact FileSystem.IsScript.isText ⟨d, outcome_script_eq_ok_iff.mp hd⟩
  rw [outcome_toText_of_texts htexts, hscripts]
  rfl

/-! ### The theorem -/

/-- **The earliest stage that fails is reported.**  If some source holds no text, the run
fails for such a source, and for the one if it is the only one, also where other sources
are no scripts.  If all sources hold texts and some are no scripts, the run fails for the
first of these, in the order in which sources are merged, with the words in which its
text alone is refused after its path, also where scripts before it could not be carried
out.  If all sources are scripts, the run answers what their merge does: its fault, or
the text and the counts of its board. -/
theorem earliest_stage_is_reported (fs : FileSystem) (o : CompileOptions) :
    let outcome := (fs.run (toText o)).1.outcome
    ((∃ p ∈ o.sources, ¬ fs.IsText p) →
      ∃ p ∈ o.sources, ∃ cause, fs.HoldsNoText p cause ∧
        outcome = .error (.sourceRead p.text cause)) ∧
    (∀ p ∈ o.sources, ¬ fs.IsText p → (∀ q ∈ o.sources, q ≠ p → fs.IsText q) →
      ∃ cause, fs.HoldsNoText p cause ∧ outcome = .error (.sourceRead p.text cause)) ∧
    ((∀ p ∈ o.sources, fs.IsText p) → (∃ p ∈ o.sources, ¬ fs.IsScript p) →
      ∃ before p after text fault, o.sources = before ++ p :: after ∧
        (∀ q ∈ before, fs.IsScript q) ∧ fs.HoldsText p text ∧
        Document.read .text (Utf8.encode text) = .error fault ∧
        outcome = .error (.serialization (.inFile p.text fault)) ∧
        (FormatFault.inFile p.text fault).message =
          p.text ++ ": " ++ (FormatFault.json fault).message) ∧
    ((∀ p ∈ o.sources, fs.IsScript p) →
      ∃ docs, List.Forall₂ fs.HoldsScript o.sources docs ∧
        ((∃ fault, (Document.merge docs).evaluate.outcome = .error (.evaluation fault) ∧
          outcome = .error (.evaluation fault)) ∨
        ∃ b, (Document.merge docs).evaluate.outcome = .ok b ∧
          outcome = .ok ⟨b.render o.ending, b.size, b.recordCount⟩)) := by
  intro outcome
  refine ⟨outcome_toText_of_noText, ?one, ?scripts, ?evaluated⟩
  case one =>
    intro p hp hnone hothers
    obtain ⟨q, hq, cause, hcause, hfailed⟩ := outcome_toText_of_noText ⟨p, hp, hnone⟩
    -- the source that is reported has no text either
    by_cases hsame : q = p
    · exact ⟨cause, hsame ▸ hcause, hsame ▸ hfailed⟩
    · exact absurd (hothers q hq hsame) hcause.not_isText
  case scripts =>
    intro htexts hnone
    obtain ⟨before, p, after, text, fault, hsources, hbefore, htext, hfault, hfailed⟩ :=
      outcome_toText_of_noScript htexts hnone
    exact ⟨before, p, after, text, fault, hsources, hbefore, htext, hfault, hfailed,
      FormatFault.message_inFile p.text fault⟩
  case evaluated =>
    intro hscripts
    obtain ⟨docs, hdocs⟩ : ∃ docs, List.Forall₂ fs.HoldsScript o.sources docs := by
      obtain ⟨docs, hdocs⟩ := exists_mapM_eq_ok_iff.mpr fun p hp => by
        obtain ⟨d, hd⟩ := hscripts p hp
        exact ⟨d, outcome_script_eq_ok_iff.mpr hd⟩
      exact ⟨docs, (mapM_eq_ok_iff.mp hdocs).imp fun _ _ hp => outcome_script_eq_ok_iff.mp hp⟩
    have houtcome := outcome_toText_of_scripts hdocs
    refine ⟨docs, hdocs, ?_⟩
    cases hevaluate : (Document.merge docs).evaluate.outcome with
    | error failure =>
      obtain ⟨fault, rfl, -⟩ := Document.outcome_evaluate_eq_error_iff.mp hevaluate
      rw [hevaluate] at houtcome
      exact .inl ⟨fault, rfl, houtcome⟩
    | ok b =>
      rw [hevaluate] at houtcome
      exact .inr ⟨b, rfl, houtcome⟩

/-- Three sources hold texts: one is cut off, one plays an effect that nobody defined, and one
is fine.  A fourth is not UTF-8, and is reported in front of the one that is cut off, which
is reported in front of the effect. -/
theorem earliest_stage_is_reported_of_four_files :
    let cut : Path := ⟨"cut.json"⟩
    let lost : Path := ⟨"lost.json"⟩
    let lamp : Path := ⟨"lamp.json"⟩
    let raw : Path := ⟨"raw.json"⟩
    let ghost :=
      "[[],[[\"a.png\",0,\"Centre\",\"Fail\",0,2,[\x7b\"apply_effect\":[\"glow\",3]\x7d]]]]"
    let sprite := "[[],[[\"lamp.png\"]]]"
    let fs : FileSystem :=
      { entries :=
          [(["cut.json"], .file (Utf8.encode "[")), (["lost.json"], .file (Utf8.encode ghost)),
           (["lamp.json"], .file (Utf8.encode sprite)), (["raw.json"], .file [0xff])] }
    let outcome (o : CompileOptions) := (fs.run (toText o)).1.outcome
    (∃ p ∈ [cut, raw, raw, lost], ∃ cause, fs.HoldsNoText p cause ∧
        outcome ⟨[cut, raw, raw], lost, .crlf⟩ = .error (.sourceRead p.text cause)) ∧
      (∃ cause, outcome ⟨[cut, raw], lost, .crlf⟩ = .error (.sourceRead "raw.json" cause)) ∧
      (∃ fault, outcome ⟨[lost, cut, cut], lamp, .crlf⟩ =
        .error (.serialization (.inFile "cut.json" fault))) ∧
      ∃ c, outcome ⟨[lamp, lamp], lamp, .lf⟩ = .ok c ∧ (c.sprites, c.records) = (3, 3) := by
  intro cut lost lamp raw ghost sprite fs outcome
  obtain ⟨hcut, hbroken, hlamp, hraw⟩ : fs.IsText cut ∧ ¬ fs.IsScript cut ∧ fs.IsScript lamp ∧
      ¬ fs.IsText raw := by
    decide +kernel
  -- the longest text is not decoded
  have htext : fs.HoldsText lost ghost := by
    simp only [FileSystem.HoldsText, fs, lost]
    rfl
  have hlost : fs.IsScript lost := by
    rw [htext.isScript_iff]
    decide +kernel
  refine ⟨?unread, ?one, ?unparsed, ?done⟩
  case unread =>
    exact (earliest_stage_is_reported fs ⟨[cut, raw, raw], lost, .crlf⟩).1
      ⟨raw, .tail _ (.head _), hraw⟩
  case one =>
    have hothers : ∀ q ∈ [cut, raw, lost], q ≠ raw → fs.IsText q := by
      simp [hcut, hlost.isText]
    obtain ⟨cause, -, hfailed⟩ := (earliest_stage_is_reported fs ⟨[cut, raw], lost, .crlf⟩).2.1 raw
      (.tail _ (.head _)) hraw hothers
    exact ⟨cause, hfailed⟩
  case unparsed =>
    have htexts : ∀ q ∈ [lost, cut, cut, lamp], fs.IsText q := by
      simp [hcut, hlost.isText, hlamp.isText]
    obtain ⟨before, p, after, text, fault, hsources, -, htext, hfault, hfailed, -⟩ :=
      (earliest_stage_is_reported fs ⟨[lost, cut, cut], lamp, .crlf⟩).2.2.1 htexts
        ⟨cut, .tail _ (.head _), hbroken⟩
    have hsources : [lost, cut, cut, lamp] = before ++ p :: after := hsources
    have hp : p ∈ [lost, cut, cut, lamp] :=
      hsources ▸ List.mem_append_right before List.mem_cons_self
    have hnone : ¬ fs.IsScript p := by
      rw [htext.isScript_iff, hfault]
      exact Bool.false_ne_true
    have honly : ∀ q ∈ [lost, cut, cut, lamp], ¬ fs.IsScript q → q = cut := by
      simp [hlost, hlamp]
    obtain rfl := honly p hp hnone
    exact ⟨fault, hfailed⟩
  case done =>
    have hscripts : ∀ q ∈ [lamp, lamp, lamp], fs.IsScript q := by simp [hlamp]
    obtain ⟨docs, -, hcases⟩ :=
      (earliest_stage_is_reported fs ⟨[lamp, lamp], lamp, .lf⟩).2.2.2 hscripts
    have hcounts : (outcome ⟨[lamp, lamp], lamp, .lf⟩).toOption.map
        (fun c => (c.sprites, c.records)) = some (3, 3) := by
      decide +kernel
    rcases hcases with ⟨fault, -, hfailed⟩ | ⟨b, -, hdone⟩
    · rw [show outcome ⟨[lamp, lamp], lamp, .lf⟩ = _ from hfailed] at hcounts
      cases hcounts
    · rw [show outcome ⟨[lamp, lamp], lamp, .lf⟩ = _ from hdone] at hcounts
      exact ⟨_, hdone, Option.some.inj hcounts⟩

end Compile

end Storyboard
