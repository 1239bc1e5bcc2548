/-
Storyboard/Proofs/ReadBack.lean

The document can be read back.

A chain is never empty and no line of it is, so an empty line before the last one says
that the next sprite begins, and the blocks between empty lines are the sprites'.  That
the lines are where the terminators say needs the images: a terminator occurs in a line
only where it occurs in the image (`Sprite.ReachableFrom.occursIn_image`), and images
free of it are all that is asked for.

The board of a document that evaluates is reachable, and its images are those of the
document, so the counts that compiling reports are counts of blocks and lines.

Main result: `documents_read_back`.
-/
import Storyboard.Compile
import Storyboard.Files.FileSystem
import Storyboard.Proofs.Evaluation
import Storyboard.Proofs.LineText

namespace Storyboard

/-! ### Sprites -/

namespace Sprite.ReachableFrom

variable {p : Placement} {s : Sprite}

/-- A sprite has lines, none of which is empty. -/
theorem lines_fine (h : s.ReachableFrom p) : s.track.lines ≠ [] ∧ "" ∉ s.track.lines := by
  obtain ⟨rest, hrecords, -⟩ := h.records_eq
  constructor
  · intro hnone
    have hnil : s.records = [] := List.map_eq_nil_iff.mp hnone
    rw [hrecords] at hnil
    cases hnil
  · intro hempty
    obtain ⟨r, -, hr⟩ := List.mem_map.mp hempty
    exact r.line_ne_empty hr

/-- A terminator that occurs in a line of a sprite occurs in its image. -/
theorem occursIn_image (h : s.ReachableFrom p) {ending : LineEnding} {line : String}
    (hline : line ∈ s.track.lines) (hoccurs : ending.OccursIn line) :
    ending.OccursIn s.image := by
  obtain ⟨rest, hrecords, hplain⟩ := h.records_eq
  obtain ⟨r, hr, rfl⟩ := List.mem_map.mp hline
  obtain ⟨layer, origin, image, x, y, rfl, himage⟩ := hoccurs.line
  have hmem : Record.header layer origin image x y ∈ p.header :: rest := hrecords ▸ hr
  -- the only header is that of the placement
  rcases List.mem_cons.mp hmem with hheader | hlater
  · obtain ⟨-, -, hsame, -, -⟩ := Record.header.inj hheader
    have hown : image = s.image := hsame.trans h.image_eq.symm
    exact hown ▸ himage
  · exact absurd trivial (hplain _ hlater)

end Sprite.ReachableFrom

/-! ### Lines of a board -/

namespace Board

/-- The terminator occurs in no image. -/
def ImagesFreeOf (b : Board) (ending : LineEnding) : Prop :=
  ∀ s ∈ b.toList, ¬ ending.OccursIn s.image

instance (b : Board) (ending : LineEnding) : Decidable (b.ImagesFreeOf ending) :=
  List.decidableBAll (fun s : Sprite => ¬ ending.OccursIn s.image) b.toList

theorem mem_separate {blocks : List (List String)} {line : String} (h : line ∈ separate blocks) :
    line = "" ∨ ∃ block ∈ blocks, line ∈ block := by
  rw [separate_eq_intercalate] at h
  induction blocks with
  | nil => cases h
  | cons block rest ih =>
    cases rest with
    | nil =>
      rw [List.intercalate_singleton] at h
      exact .inr ⟨block, List.mem_cons_self, h⟩
    | cons next rest =>
      rw [List.intercalate_cons_cons, List.append_assoc] at h
      rcases List.mem_append.mp h with hblock | h
      · exact .inr ⟨block, List.mem_cons_self, hblock⟩
      rcases List.mem_append.mp h with hbetween | hrest
      · exact .inl (List.mem_singleton.mp hbetween)
      · exact (ih hrest).imp_right fun ⟨b, hb, hline⟩ => ⟨b, List.mem_cons_of_mem block hb, hline⟩

/-- Apart from empty lines, what separated blocks have is what they had. -/
theorem filter_separate {blocks : List (List String)} (h : ∀ block ∈ blocks, "" ∉ block) :
    (separate blocks).filter (· ≠ "") = blocks.flatten := by
  have hkept {block : List String} (hblock : "" ∉ block) : block.filter (· ≠ "") = block := by
    refine List.filter_eq_self.mpr fun line hline => decide_eq_true ?_
    rintro rfl
    exact hblock hline
  induction blocks with
  | nil => rfl
  | cons block rest ih =>
    have hblock := hkept (h block List.mem_cons_self)
    have hrest := ih fun b hb => h b (List.mem_cons_of_mem block hb)
    cases rest with
    | nil => rw [separate, hblock, List.flatten_singleton]
    | cons next rest =>
      have hbetween (lines : List String) : ("" :: lines).filter (· ≠ "") = lines.filter (· ≠ "") :=
        List.filter_cons_of_neg (by decide)
      rw [separate, List.filter_append, hblock, hbetween, hrest]
      · rfl
      · exact List.cons_ne_nil next rest

namespace Reachable

variable {b : Board} {ending : LineEnding}

theorem blocks_fine (h : b.Reachable) : ∀ block ∈ b.blocks, block ≠ [] ∧ "" ∉ block := by
  intro block hblock
  obtain ⟨s, hs, rfl⟩ := List.mem_map.mp hblock
  obtain ⟨p, hp⟩ := h.sprites s hs
  exact hp.lines_fine

theorem not_occursIn_line (h : b.Reachable) (hfree : b.ImagesFreeOf ending) :
    ∀ line ∈ b.lines, ¬ ending.OccursIn line := by
  have hempty : ¬ ending.OccursIn "" := LineEnding.not_occursIn_of_newline List.not_mem_nil
  intro line hline
  rcases List.mem_cons.mp hline with rfl | hline
  · exact LineEnding.not_occursIn_of_newline (by decide)
  rcases List.mem_append.mp hline with hbody | hlast
  · rcases mem_separate hbody with rfl | ⟨block, hblock, hline⟩
    · exact hempty
    · obtain ⟨s, hs, rfl⟩ := List.mem_map.mp hblock
      obtain ⟨p, hp⟩ := h.sprites s hs
      exact fun hoccurs => hfree s hs (hp.occursIn_image hline hoccurs)
  · obtain rfl := List.mem_singleton.mp hlast
    exact hempty

/-- Cutting the text gives the lines of the document, and nothing is left. -/
theorem cut_render (h : b.Reachable) (hfree : b.ImagesFreeOf ending) :
    ending.cut (b.render ending) = (b.lines, "") :=
  LineEnding.cut_join (h.not_occursIn_line hfree)

/-- The blocks of the text are the sprites' lines. -/
theorem blocks_render (h : b.Reachable) (hfree : b.ImagesFreeOf ending) :
    ending.blocks (b.render ending) = b.blocks := by
  rw [LineEnding.blocks, h.cut_render hfree, lines, List.tail_cons, List.dropLast_concat,
    separate_eq_intercalate]
  exact LineEnding.groups_intercalate h.blocks_fine

/-- The sprites and their lines can be counted in the text. -/
theorem counts_render (h : b.Reachable) (hfree : b.ImagesFreeOf ending) :
    b.size = (ending.blocks (b.render ending)).length ∧
      b.recordCount = ((ending.cut (b.render ending)).1.tail.filter (· ≠ "")).length := by
  constructor
  · rw [h.blocks_render hfree, blocks, List.length_map]
    rfl
  · have hlast : [""].filter (· ≠ "") = [] := List.filter_cons_of_neg (by decide)
    have hrecords : b.blocks.flatten = (b.toList.flatMap Sprite.records).map Record.line := by
      rw [List.map_flatMap, List.flatMap_def]
      rfl
    rw [h.cut_render hfree, lines, List.tail_cons, List.filter_append,
      filter_separate fun block hblock => (h.blocks_fine block hblock).2, hlast, List.append_nil,
      hrecords, List.length_map, recordCount]

end Reachable

/-- An image without line feeds is without terminators of two characters. -/
theorem ImagesFreeOf.crlf {b : Board} (h : b.ImagesFreeOf .lf) : b.ImagesFreeOf .crlf := by
  intro s hs hoccurs
  have hpart : LineEnding.lf.text.toList <:+: LineEnding.crlf.text.toList := by decide
  exact h s hs (hpart.trans hoccurs)

end Board

/-! ### Boards of documents -/

/-- A board of reachable sprites is reachable: they can be added one after the other. -/
theorem Board.reachable_of_sprites {b : Board} (h : ∀ s ∈ b.toList, ∃ p, s.ReachableFrom p) :
    b.Reachable := by
  obtain ⟨⟨sprites⟩⟩ := b
  induction sprites using List.reverseRecOn with
  | nil => exact .empty
  | append_singleton sprites s ih =>
    have hbefore := ih fun t ht => h t (List.mem_append_left [s] ht)
    obtain ⟨p, hp⟩ := h s (List.mem_append_right sprites List.mem_cons_self)
    have hlast : (⟨⟨sprites ++ [s]⟩⟩ : Board) = Board.add ⟨⟨sprites⟩⟩ s :=
      Board.ext_toList (Board.toList_add ⟨⟨sprites⟩⟩ s).symm
    exact hlast ▸ .add hbefore hp

/-- A call of a sprite stands for a possible edit, if the effects are reachable. -/
theorem Call.possible_of_edit? {effects : EffectTable}
    (h : ∀ entry ∈ effects, entry.2.Reachable) {c : Call} {e : Edit}
    (he : c.edit? effects = some e) : e.Possible := by
  cases c with
  | act a =>
    obtain rfl := Option.some.inj he
    exact .step _
  | setLayer layer =>
    obtain rfl := Option.some.inj he
    exact .setLayer layer
  | applyEffect name count =>
    obtain ⟨fx, hfx, rfl⟩ := Option.map_eq_some_iff.mp he
    obtain ⟨before, after, htable, -⟩ := List.lookup_eq_some_iff.mp hfx
    have hmem : (name, fx) ∈ effects := htable ▸ List.mem_append_right before List.mem_cons_self
    exact .applyEffect (h _ hmem) count

theorem SpriteScript.reachableFrom_built {effects : EffectTable}
    (h : ∀ entry ∈ effects, entry.2.Reachable) (d : SpriteScript) :
    (d.built effects).ReachableFrom d.placement := by
  refine Sprite.ReachableFrom.build.run fun e he => ?_
  obtain ⟨c, -, hc⟩ := List.mem_filterMap.mp he
  exact c.possible_of_edit? h hc

namespace Document

theorem reachable_templates (d : Document) : ∀ entry ∈ d.templates, entry.2.Reachable := by
  intro entry hentry
  obtain ⟨e, -, rfl⟩ := List.mem_map.mp hentry
  exact Effect.Reachable.empty.run _

/-- What a document that evaluates gives is a board that calls can build, with the images
of the document's sprites. -/
theorem reachable_of_evaluate {d : Document} {b : Board} (h : d.evaluate.outcome = .ok b) :
    b.Reachable ∧ b.toList.map Sprite.image = d.sprites.map (·.placement.image) := by
  obtain ⟨-, hlist⟩ := outcome_evaluate_eq_ok_iff.mp h
  have hbuilt := SpriteScript.reachableFrom_built d.reachable_templates
  constructor
  · refine Board.reachable_of_sprites fun s hs => ?_
    obtain ⟨e, -, rfl⟩ := List.mem_map.mp (hlist ▸ hs)
    exact ⟨e.placement, hbuilt e⟩
  · rw [hlist, List.map_map]
    exact List.map_congr_left fun e _ => (hbuilt e).image_eq

end Document

/-! ### Compiling -/

namespace Compile

/-- What compiling answers, by the document that the sources make. -/
theorem outcome_toText (o : CompileOptions) (fs : FileSystem) :
    (fs.run (toText o)).1.outcome =
      (fs.run (readMerged o.sources)).1.outcome.bind fun d =>
        d.evaluate.outcome.map (output o.ending) := by
  rcases hread : fs.run (readMerged o.sources) with ⟨merged, fs'⟩
  rw [toText, FileSystem.run_bind hread]
  show (merged >>= fun d => d.evaluate >>= fun b => pure (output o.ending b)).outcome = _
  rw [Run.outcome_bind]
  congr 1
  funext d
  rw [Run.outcome_bind]
  cases d.evaluate.outcome with
  | error e => rfl
  | ok b => rfl

/-- The counts that compiling reports are those of the text. -/
theorem counts_toText {o : CompileOptions} {fs : FileSystem} {c : Compiled}
    (h : (fs.run (toText o)).1.outcome = .ok c) :
    ∃ d, (fs.run (readMerged o.sources)).1.outcome = .ok d ∧
      ((∀ s ∈ d.sprites, ¬ o.ending.OccursIn s.placement.image) →
        c.sprites = (o.ending.blocks c.text).length ∧
        c.records = ((o.ending.cut c.text).1.tail.filter (· ≠ "")).length) := by
  rw [outcome_toText] at h
  cases hread : (fs.run (readMerged o.sources)).1.outcome with
  | error e =>
    rw [hread] at h
    cases h
  | ok d =>
    refine ⟨d, rfl, fun himages => ?_⟩
    rw [hread] at h
    cases hevaluate : d.evaluate.outcome with
    | error e =>
      simp only [Except.bind, hevaluate] at h
      cases h
    | ok b =>
      simp only [Except.bind, hevaluate] at h
      obtain rfl : output o.ending b = c := Except.ok.inj h
      obtain ⟨hb, hsame⟩ := Document.reachable_of_evaluate hevaluate
      refine hb.counts_render fun s hs => ?_
      have himage : s.image ∈ d.sprites.map (·.placement.image) :=
        hsame ▸ List.mem_map_of_mem hs
      obtain ⟨e, he, hsame'⟩ := List.mem_map.mp himage
      exact hsame' ▸ himages e he

end Compile

/-! ### The theorem -/

/-- **The document can be read back.**  If the terminator occurs in no image, cutting the
text at it gives the section header, the lines of the sprites in order with one empty line
between two of them and none inside one, and one last empty line; nothing is left behind.
So the blocks of the text are the lines of the sprites, and boards of the same text have the
same.  If no image has a line feed, both terminators lead to the same lines.  What compiling
reports is the number of blocks and of lines that are not empty, the section header apart. -/
theorem documents_read_back :
    (∀ (b : Board) (ending : LineEnding), b.Reachable → b.ImagesFreeOf ending →
      ending.cut (b.render ending) =
        ("[Events]" :: ([""].intercalate (b.toList.map fun s => s.track.lines) ++ [""]), "") ∧
      (∀ s ∈ b.toList, s.track.lines ≠ [] ∧ "" ∉ s.track.lines) ∧
      ending.blocks (b.render ending) = b.toList.map fun s => s.track.lines) ∧
    (∀ (b c : Board) (ending : LineEnding), b.Reachable → b.ImagesFreeOf ending →
      c.Reachable → c.ImagesFreeOf ending → b.render ending = c.render ending →
      (b.toList.map fun s => s.track.lines) = c.toList.map fun s => s.track.lines) ∧
    (∀ b : Board, b.Reachable → b.ImagesFreeOf .lf →
      LineEnding.crlf.cut (b.render .crlf) = LineEnding.lf.cut (b.render .lf)) ∧
    ∀ (fs : FileSystem) (o : CompileOptions) (c : Compiled),
      (fs.run (Compile.toText o)).1.outcome = .ok c →
      ∃ d, (fs.run (Compile.readMerged o.sources)).1.outcome = .ok d ∧
        ((∀ s ∈ d.sprites, ¬ o.ending.OccursIn s.placement.image) →
          c.sprites = (o.ending.blocks c.text).length ∧
          c.records = ((o.ending.cut c.text).1.tail.filter (· ≠ "")).length) := by
  refine ⟨?_, ?_, ?_, fun fs o c => Compile.counts_toText⟩
  · intro b ending hb hfree
    refine ⟨?_, ?_, hb.blocks_render hfree⟩
    · rw [hb.cut_render hfree, Board.lines, Board.separate_eq_intercalate]
      rfl
    · intro s hs
      obtain ⟨p, hp⟩ := hb.sprites s hs
      exact hp.lines_fine
  · intro b c ending hb hbfree hc hcfree htext
    show b.blocks = c.blocks
    rw [← hb.blocks_render hbfree, ← hc.blocks_render hcfree, htext]
  · intro b hb hfree
    rw [hb.cut_render hfree, hb.cut_render hfree.crlf]

/-- A carriage return in an image is none of the terminators of two characters, and quotes
do not matter: the two sprites are two blocks.  A script with such an image is compiled to one
block of one line. -/
theorem documents_read_back_of_carriage_return :
    let b := (Board.empty.place { image := "a\r.png" }).place { image := "\"b\".png" }
    let script := "\x7b\"sprites\":[\x7b\"image\":\"a\\r.png\"\x7d]\x7d"
    let fs : FileSystem := { entries := [(["s.json"], .file (Utf8.encode script))] }
    let o : CompileOptions := { script := ⟨"s.json"⟩ }
    LineEnding.crlf.blocks (b.render .crlf) =
        [["Sprite,0,0,\"a\r.png\",320,240"], ["Sprite,0,0,\"\"b\".png\",320,240"]] ∧
      ∃ c, (fs.run (Compile.toText o)).1.outcome = .ok c ∧
        (o.ending.blocks c.text).length = 1 ∧
        ((o.ending.cut c.text).1.tail.filter (· ≠ "")).length = 1 := by
  intro b script fs o
  have hb : b.Reachable := .add (.add .empty .build) .build
  have hfree : b.ImagesFreeOf .crlf := by decide +kernel
  constructor
  · rw [(documents_read_back.1 b .crlf hb hfree).2.2]
    decide +kernel
  have hcounts : (fs.run (Compile.toText o)).1.outcome.toOption.map
      (fun c => (c.sprites, c.records)) = some (1, 1) := by
    decide +kernel
  have himages : (fs.run (Compile.readMerged o.sources)).1.outcome.toOption.map
      (fun d => d.sprites.map (·.placement.image)) = some ["a\r.png"] := by
    decide +kernel
  cases hc : (fs.run (Compile.toText o)).1.outcome with
  | error e =>
    rw [hc] at hcounts
    cases hcounts
  | ok c =>
    obtain ⟨d, hd, hblocks⟩ := documents_read_back.2.2.2 fs o c hc
    rw [hc] at hcounts
    rw [hd] at himages
    obtain ⟨hsprites, hrecords⟩ := Prod.mk.inj (Option.some.inj hcounts)
    have hd : d.sprites.map (·.placement.image) = ["a\r.png"] := Option.some.inj himages
    have hnone : ∀ s ∈ d.sprites, ¬ o.ending.OccursIn s.placement.image := by
      intro s hs
      have hmem : s.placement.image ∈ ["a\r.png"] := hd ▸ List.mem_map_of_mem hs
      rw [List.mem_singleton.mp hmem]
      decide +kernel
    obtain ⟨hone, hlines⟩ := hblocks hnone
    exact ⟨c, rfl, hone.symm.trans hsprites, hlines.symm.trans hrecords⟩

end Storyboard
