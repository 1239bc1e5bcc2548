/-
Storyboard/Proofs/Markers.lean

The commands of loops stand under markers.

What a command of a loop stands under is the last record before it that is no such command
itself.  `trimLooped` cuts a chain back to that record, so that `UnderMarker` says of a chain
that the next loop command in it would stand under a marker.  The invariant of sprites
(`Sprite.Governed`) is that all loop commands so far do, and that the next one would as long
as a loop is open.  An effect may be played in the middle of a loop and hold markers of its
own: as it writes nothing but markers and loop commands, it cannot break the invariant, but
it can put another marker between a loop's own and the commands that follow.

Where that never happens (`Sprite.PlaysOutsideLoops`), all that was written since a loop was
opened are its own commands (`Sprite.OpenSince`), so these stand under its own marker.

Every record of a chain was written by one edit, at a moment when the chain was what stands
before the record (`Sprite.exists_edit_of_records`).

Main result: `loop_commands_stand_under_markers`.
-/
import Mathlib.Data.List.DropRight
import Storyboard.Proofs.Brackets
import Storyboard.Proofs.Chain

namespace Storyboard

/-! ### What a loop command stands under -/

/-- The record is a command whose times count from a marker. -/
def Record.isLooped : Record → Bool
  | .header .. => false
  | .command scope .. => scope == .loop
  | .marker .. => false

/-- What belongs under a loop marker is a loop command, or another marker. -/
theorem Record.isLooped_of_underLoop {r : Record} (h : ¬ r.IsHeader ∧ ¬ r.IsTop) :
    r.isLooped = true ∨ ∃ start count, r = .marker start count := by
  cases r with
  | header layer origin image x y => exact absurd trivial h.1
  | marker start count => exact .inr ⟨start, count, rfl⟩
  | command scope o e start stop ps =>
    cases scope with
    | top => exact absurd rfl h.2
    | loop => exact .inl rfl

theorem Record.underLoop_of_isLooped {r : Record} (h : r.isLooped = true) :
    ¬ r.IsHeader ∧ ¬ r.IsTop := by
  cases r with
  | header layer origin image x y => cases h
  | marker start count => cases h
  | command scope o e start stop ps =>
    cases scope with
    | top => cases h
    | loop => exact ⟨id, nofun⟩

/-- The records without the loop commands that they end with. -/
def trimLooped (rs : List Record) : List Record := rs.rdropWhile Record.isLooped

/-- A loop command that is written next stands under a marker. -/
def UnderMarker (rs : List Record) : Prop :=
  ∃ before start count, trimLooped rs = before ++ [.marker start count]

/-- All loop commands stand under markers. -/
def LoopsUnderMarkers (rs : List Record) : Prop :=
  ∀ before r after, rs = before ++ r :: after → r.isLooped = true → UnderMarker before

theorem trimLooped_append_looped (rs : List Record) {new : List Record}
    (h : ∀ r ∈ new, r.isLooped = true) : trimLooped (rs ++ new) = trimLooped rs := by
  have hreversed : ∀ r ∈ new.reverse, r.isLooped = true :=
    fun r hr => h r (List.mem_reverse.mp hr)
  rw [trimLooped, List.rdropWhile, List.reverse_append, List.dropWhile_append_of_pos hreversed]
  rfl

theorem trimLooped_concat_marker (rs : List Record) (start : Ms) (count : UInt32) :
    trimLooped (rs ++ [Record.marker start count]) = rs ++ [Record.marker start count] :=
  List.rdropWhile_concat_neg _ _ _ Bool.false_ne_true

/-! ### Splitting chains -/

/-- A place in a chain that has grown lies in the old part or in the new one. -/
theorem split_append {old new before after : List Record} {r : Record}
    (h : old ++ new = before ++ r :: after) :
    (∃ mid, old = before ++ r :: mid) ∨
      ∃ mid, before = old ++ mid ∧ new = mid ++ r :: after := by
  obtain ⟨mid, hbefore, hnew⟩ | ⟨mid, hold, hafter⟩ := List.append_eq_append_iff.mp h
  · exact .inr ⟨mid, hbefore, hnew⟩
  · cases mid with
    | nil => exact .inr ⟨[], by simpa using hold.symm, hafter.symm⟩
    | cons x mid =>
      obtain ⟨rfl, -⟩ := List.cons.inj hafter
      exact .inl ⟨mid, hold⟩

namespace UnderMarker

variable {rs : List Record}

theorem concat_marker (rs : List Record) (start : Ms) (count : UInt32) :
    UnderMarker (rs ++ [Record.marker start count]) :=
  ⟨rs, start, count, trimLooped_concat_marker rs start count⟩

/-- More markers and loop commands do not change that the next one stands under a marker. -/
theorem append (h : UnderMarker rs) {new : List Record}
    (hnew : ∀ r ∈ new, ¬ r.IsHeader ∧ ¬ r.IsTop) : UnderMarker (rs ++ new) := by
  induction new using List.reverseRecOn with
  | nil => rwa [List.append_nil]
  | append_singleton new r ih =>
    have hrest : UnderMarker (rs ++ new) :=
      ih fun q hq => hnew q (List.mem_append_left _ hq)
    rw [← List.append_assoc]
    rcases Record.isLooped_of_underLoop (hnew r (by simp)) with hlooped | ⟨start, count, rfl⟩
    · -- the marker of the records before it is still the last one
      obtain ⟨before, start, count, htrim⟩ := hrest
      refine ⟨before, start, count, ?_⟩
      rw [trimLooped_append_looped _ (by simpa using hlooped), htrim]
    · exact concat_marker (rs ++ new) start count

end UnderMarker

namespace LoopsUnderMarkers

variable {rs new : List Record}

/-- Records that are no loop commands can always be added. -/
theorem append_unlooped (h : LoopsUnderMarkers rs) (hnew : ∀ r ∈ new, r.isLooped = false) :
    LoopsUnderMarkers (rs ++ new) := by
  intro before r after hsplit hlooped
  rcases split_append hsplit with ⟨mid, hold⟩ | ⟨mid, -, hadded⟩
  · exact h before r mid hold hlooped
  · have hr : r ∈ new := by simp [hadded]
    rw [hnew r hr] at hlooped
    cases hlooped

/-- Under a marker, loop commands and further markers can be added. -/
theorem append_underLoop (h : LoopsUnderMarkers rs) (hmarked : UnderMarker rs)
    (hnew : ∀ r ∈ new, ¬ r.IsHeader ∧ ¬ r.IsTop) : LoopsUnderMarkers (rs ++ new) := by
  intro before r after hsplit hlooped
  rcases split_append hsplit with ⟨mid, hold⟩ | ⟨mid, rfl, hadded⟩
  · exact h before r mid hold hlooped
  · refine hmarked.append fun q hq => hnew q ?_
    rw [hadded]
    exact List.mem_append_left _ hq

end LoopsUnderMarkers

/-- The call that opens a loop. -/
abbrev Edit.startLoop (count : UInt32) : Edit := .step (.act (.bracket (.startLoop count)))

/-! ### What a step does to the loop -/

namespace Track

variable {t : Track}

/-- While a loop is open, a step writes none but commands of that loop. -/
theorem isLooped_of_mem_written (hopen : t.timeline.loop.isOpen = true) {s : Step} {r : Record}
    (h : r ∈ t.written s) : r.isLooped = true := by
  obtain ⟨o, e, d, ps, rfl⟩ | ⟨hclosed, -⟩ := mem_written h
  · show (t.timeline.cursorScope == .loop) = true
    rw [Timeline.cursorScope, if_pos hopen]
    rfl
  · rw [hopen] at hclosed
    cases hclosed

/-- While no loop is open, a step writes no command of a loop, if the timeline has not the
scope of loops itself. -/
theorem not_isLooped_of_mem_written (hclosed : t.timeline.loop.isOpen = false)
    (hscope : t.timeline.scope = .top) {s : Step} {r : Record} (h : r ∈ t.written s) :
    r.isLooped = false := by
  obtain ⟨o, e, d, ps, rfl⟩ | ⟨-, count, rfl⟩ := mem_written h
  · show (t.timeline.cursorScope == .loop) = false
    rw [Timeline.cursorScope, if_neg (by rw [hclosed]; exact Bool.false_ne_true), hscope]
    rfl
  · rfl

/-- A step writes at most one record. -/
theorem written_eq_of_mem {s : Step} {r : Record} (h : r ∈ t.written s) : t.written s = [r] := by
  have hlength : (t.written s).length ≤ 1 := by
    cases s with
    | command o e d ps => exact Nat.le_refl 1
    | act a =>
      cases a with
      | animate a d e => exact Nat.le_refl 1
      | bracket b =>
        cases b with
        | startLoop count =>
          simp only [written, Timeline.opened]
          split <;> simp
        | endLoop => exact Nat.zero_le 1
        | startBatch => exact Nat.zero_le 1
        | endBatch => exact Nat.zero_le 1
      | sleep d => exact Nat.zero_le 1
      | setTime ms => exact Nat.zero_le 1
      | assign s => exact Nat.zero_le 1
  obtain ⟨x, hx⟩ := List.length_eq_one_iff.mp
    (Nat.le_antisymm hlength (List.length_pos_of_mem h))
  rw [hx] at h ⊢
  rw [List.mem_singleton.mp h]

/-- A command of top scope is written while no loop is open. -/
theorem loop_closed_of_isTop_written {s : Step} {r : Record} (h : r ∈ t.written s)
    (htop : r.IsTop) : t.timeline.loop.isOpen = false := by
  rcases hopen : t.timeline.loop.isOpen with - | -
  · rfl
  · obtain ⟨o, e, d, ps, rfl⟩ | ⟨hclosed, -⟩ := mem_written h
    · have hscope : t.timeline.cursorScope = .top := htop
      rw [Timeline.cursorScope, if_pos hopen] at hscope
      cases hscope
    · exact hopen.symm.trans hclosed

end Track

namespace Sprite

variable {s : Sprite} {e : Edit}

/-- A loop that is open after an edit was open before it, or the edit has opened it. -/
theorem loop_open_before (h : (s.edit e).track.timeline.loop.isOpen = true) :
    s.track.timeline.loop.isOpen = true ∨
      s.track.timeline.loop.isOpen = false ∧
        ∃ count, e = .startLoop count := by
  have hnext : (s.edit e).track.timeline.loop.isOpen =
      (s.track.timeline.openBrackets.next e.bracket?).loop :=
    congrArg OpenBrackets.loop (s.openBrackets_edit e)
  rcases hopen : s.track.timeline.loop.isOpen with - | -
  · refine .inr ⟨rfl, ?_⟩
    rw [hnext] at h
    cases hb : e.bracket? with
    | none =>
      rw [hb] at h
      exact absurd (hopen.symm.trans h) Bool.false_ne_true
    | some b =>
      rw [hb] at h
      cases b with
      | startLoop count => exact ⟨count, Edit.eq_of_bracket? hb⟩
      | endLoop => cases h
      | startBatch => exact absurd (hopen.symm.trans h) Bool.false_ne_true
      | endBatch => exact absurd (hopen.symm.trans h) Bool.false_ne_true
  · exact .inl rfl

theorem written_startLoop (hclosed : s.track.timeline.loop.isOpen = false) (count : UInt32) :
    s.written (.startLoop count) = [.marker s.track.timeline.ms count] := by
  simp [written, Track.written, Timeline.opened, hclosed]

/-- While a loop is open, only markers and loop commands are written. -/
theorem underLoop_of_mem_written (hopen : s.track.timeline.loop.isOpen = true) (he : e.Possible)
    {r : Record} (h : r ∈ s.written e) : ¬ r.IsHeader ∧ ¬ r.IsTop := by
  cases he with
  | step t => exact Record.underLoop_of_isLooped (Track.isLooped_of_mem_written hopen h)
  | setLayer layer => cases h
  | applyEffect hfx count =>
    rcases List.mem_cons.mp h with rfl | hcopied
    · exact ⟨id, id⟩
    · exact hfx.underLoop r hcopied

/-! ### The invariant -/

/-- All loop commands stand under markers, and as long as a loop is open the next one would
do so too. -/
structure Governed (s : Sprite) : Prop where
  loops : LoopsUnderMarkers s.records
  next : s.track.timeline.loop.isOpen = true → UnderMarker s.records

theorem Governed.build (p : Placement) : p.build.Governed where
  loops := by
    have hheader : ∀ r ∈ [p.header], r.isLooped = false := by
      intro r hr
      rw [List.mem_singleton.mp hr]
      rfl
    have hempty : LoopsUnderMarkers [] := by simp [LoopsUnderMarkers]
    exact hempty.append_unlooped hheader
  next := by
    intro hopen
    cases hopen

theorem Governed.edit (h : s.Governed) (hscope : s.track.timeline.scope = .top)
    (he : e.Possible) : (s.edit e).Governed where
  loops := by
    rw [records_edit]
    rcases hopen : s.track.timeline.loop.isOpen with - | -
    · cases he with
      | step t =>
        exact h.loops.append_unlooped fun r => Track.not_isLooped_of_mem_written hopen hscope
      | setLayer layer => exact h.loops.append_unlooped fun r hr => nomatch hr
      | @applyEffect e hfx count =>
        -- the marker under which the effect is played governs its first commands
        have hmarker : LoopsUnderMarkers (s.records ++ [Record.marker s.track.timeline.ms count]) :=
          h.loops.append_unlooped (by simp [Record.isLooped])
        have hplayed := hmarker.append_underLoop (.concat_marker _ _ _) hfx.underLoop
        rwa [List.append_assoc] at hplayed
    · exact h.loops.append_underLoop (h.next hopen) fun r => underLoop_of_mem_written hopen he
  next := by
    intro hopen
    rw [records_edit]
    rcases loop_open_before hopen with hbefore | ⟨hclosed, count, rfl⟩
    · exact (h.next hbefore).append fun r => underLoop_of_mem_written hbefore he
    · rw [written_startLoop hclosed]
      exact .concat_marker _ _ _

theorem ReachableFrom.governed {p : Placement} (h : s.ReachableFrom p) : s.Governed := by
  induction h with
  | build => exact .build p
  | edit h he ih => exact ih.edit h.scope_eq he

theorem run_concat (s : Sprite) (done : List Edit) (e : Edit) :
    s.run (done ++ [e]) = (s.run done).edit e :=
  s.run_append done [e]

/-! ### A loop's own commands -/

/-- No effect is played while a loop is open. -/
def PlaysOutsideLoops (s : Sprite) (edits : List Edit) : Prop :=
  ∀ done e count rest, edits = done ++ .applyEffect e count :: rest →
    (s.run done).track.timeline.loop.isOpen = false

theorem PlaysOutsideLoops.of_prefix {edits done : List Edit} (h : s.PlaysOutsideLoops edits)
    (hdone : done <+: edits) : s.PlaysOutsideLoops done := by
  rintro earlier e count rest rfl
  obtain ⟨more, rfl⟩ := hdone
  exact h earlier e count (rest ++ more) (by simp)

/-- The edit after `earlier` opens a loop, and the loop is open until after `inside`. -/
structure OpenSince (s : Sprite) (done earlier : List Edit) (count : UInt32) (inside : List Edit) :
    Prop where
  edits : done = earlier ++ .startLoop count :: inside
  closed : (s.run earlier).track.timeline.loop.isOpen = false
  still_open : ∀ now, earlier ++ [.startLoop count] <+: now →
    now <+: done → (s.run now).track.timeline.loop.isOpen = true

/-- The edit that has just opened a loop. -/
theorem OpenSince.opened {done : List Edit}
    (hclosed : (s.run done).track.timeline.loop.isOpen = false) {count : UInt32}
    (hopen : (s.run (done ++ [Edit.startLoop count])).track.timeline.loop.isOpen
      = true) :
    s.OpenSince (done ++ [Edit.startLoop count]) done count [] where
  edits := rfl
  closed := hclosed
  still_open now hlower hupper := by
    rwa [hupper.eq_of_length (Nat.le_antisymm hupper.length_le hlower.length_le)]

/-- One more edit that leaves the loop open. -/
theorem OpenSince.concat {done earlier inside : List Edit} {count : UInt32}
    (h : s.OpenSince done earlier count inside)
    (hopen : (s.run (done ++ [e])).track.timeline.loop.isOpen = true) :
    s.OpenSince (done ++ [e]) earlier count (inside ++ [e]) where
  edits := by rw [h.edits]; simp
  closed := h.closed
  still_open now hlower hupper := by
    rcases List.prefix_concat_iff.mp hupper with rfl | hbefore
    · exact hopen
    · exact h.still_open now hlower hbefore

/-- The records since a loop was opened are its marker and its own commands. -/
theorem exists_openSince (hclosed : s.track.timeline.loop.isOpen = false) {done : List Edit}
    (hplays : s.PlaysOutsideLoops done)
    (hopen : (s.run done).track.timeline.loop.isOpen = true) :
    ∃ earlier count inside, s.OpenSince done earlier count inside ∧
      trimLooped (s.run done).records =
        (s.run earlier).records ++ [Record.marker (s.run earlier).track.timeline.ms count] := by
  induction done using List.reverseRecOn with
  | nil =>
    have hopen : s.track.timeline.loop.isOpen = true := hopen
    rw [hclosed] at hopen
    cases hopen
  | append_singleton done e ih =>
    have hedit := hopen
    rw [run_concat] at hedit
    rcases loop_open_before hedit with hbefore | ⟨hnone, count, rfl⟩
    · -- nothing but a command of the loop can have been added
      obtain ⟨earlier, count, inside, hsince, htrim⟩ :=
        ih (hplays.of_prefix (List.prefix_append done [e])) hbefore
      have hwritten : ∀ r ∈ (s.run done).written e, r.isLooped = true := by
        intro r hr
        cases e with
        | step t => exact Track.isLooped_of_mem_written hbefore hr
        | setLayer layer => cases hr
        | applyEffect e count =>
          have houtside := hplays done e count [] rfl
          rw [hbefore] at houtside
          cases houtside
      refine ⟨earlier, count, inside ++ [e], hsince.concat hopen, ?_⟩
      rw [run_concat, records_edit, trimLooped_append_looped _ hwritten, htrim]
    · refine ⟨done, count, [], .opened hnone hopen, ?_⟩
      rw [run_concat, records_edit, written_startLoop hnone, trimLooped_concat_marker]

/-! ### Who has written a record -/

/-- Every record of a chain was written by an edit, when the chain was what stands before. -/
theorem exists_edit_of_records {edits : List Edit} {before after : List Record} {r : Record}
    (h : (s.run edits).records = before ++ r :: after) :
    (∃ mid, s.records = before ++ r :: mid) ∨
      ∃ done e rest mid more, edits = done ++ e :: rest ∧
        before = (s.run done).records ++ mid ∧ (s.run done).written e = mid ++ r :: more := by
  induction edits using List.reverseRecOn generalizing after with
  | nil => exact .inl ⟨after, h⟩
  | append_singleton edits e ih =>
    rw [run_concat, records_edit] at h
    -- the last edit has written the record, or it was there before
    rcases split_append h with ⟨mid, hold⟩ | ⟨mid, hbefore, hnew⟩
    · rcases ih hold with hgiven | ⟨done, d, rest, mid, more, rfl, hrest⟩
      · exact .inl hgiven
      · exact .inr ⟨done, d, rest ++ [e], mid, more, by simp, hrest⟩
    · exact .inr ⟨edits, e, [], mid, after, rfl, hbefore, hnew⟩

theorem records_prefix_run (s : Sprite) (edits : List Edit) :
    s.records <+: (s.run edits).records := by
  induction edits generalizing s with
  | nil => exact List.prefix_rfl
  | cons e rest ih =>
    have hedit : s.records <+: (s.edit e).records := ⟨s.written e, (s.records_edit e).symm⟩
    exact hedit.trans (ih (s.edit e))

/-- A command of top scope was written by a step of the sprite, outside its loops. -/
theorem exists_step_of_isTop {p : Placement} {edits : List Edit}
    (hedits : ∀ e ∈ edits, e.Possible) {before after : List Record} {r : Record}
    (h : (p.build.run edits).records = before ++ r :: after) (htop : r.IsTop) :
    ∃ done t rest, edits = done ++ Edit.step t :: rest ∧
      (p.build.run done).records = before ∧
      (p.build.run done).track.written t = [r] ∧
      (p.build.run done).track.timeline.loop.isOpen = false := by
  rcases exists_edit_of_records h with ⟨mid, hheader⟩ |
    ⟨done, e, rest, mid, more, rfl, rfl, hwritten⟩
  · have hr : r ∈ [p.header] := by
      rw [show [p.header] = before ++ r :: mid from hheader]
      simp
    rw [List.mem_singleton.mp hr] at htop
    exact htop.elim
  · have hr : r ∈ (p.build.run done).written e := by simp [hwritten]
    have he : e.Possible := hedits e (by simp)
    cases he with
    | step t =>
      have hone : (p.build.run done).track.written t = [r] := Track.written_eq_of_mem hr
      have hmid : mid = [] := by
        rw [show (p.build.run done).written (.step t) = [r] from hone] at hwritten
        cases mid with
        | nil => rfl
        | cons x mid => simp at hwritten
      refine ⟨done, t, rest, rfl, by rw [hmid, List.append_nil], hone, ?_⟩
      exact Track.loop_closed_of_isTop_written hr htop
    | setLayer layer => cases hr
    | applyEffect hfx count =>
      rcases List.mem_cons.mp hr with rfl | hcopied
      · exact htop.elim
      · exact absurd htop (hfx.underLoop r hcopied).2

end Sprite

/-! ### The theorem -/

/-- **Loop commands stand under markers.**  Whatever calls have built a sprite, the last
record before a command of a loop that is no such command itself is a marker.  If no effect
was played while a loop was open, then whatever the sprite recorded while a loop was open is
a loop command, and its marker is the one that was written when that loop was opened, with
the position and the count that the loop was opened with.  A command of top scope was
recorded while no loop was open. -/
theorem loop_commands_stand_under_markers (p : Placement) {edits : List Edit}
    (hedits : ∀ e ∈ edits, e.Possible) :
    let upTo (done : List Edit) : Sprite := p.build.run done
    (∀ before r after, (upTo edits).records = before ++ r :: after → r.isLooped = true →
      ∃ earlier start count, trimLooped before = earlier ++ [.marker start count]) ∧
    (p.build.PlaysOutsideLoops edits → ∀ done t rest, edits = done ++ .step t :: rest →
      (upTo done).track.timeline.loop.isOpen = true → ∀ r ∈ (upTo done).track.written t,
        r.isLooped = true ∧ (upTo done).records ++ [r] <+: (upTo edits).records ∧
        ∃ earlier count inside, p.build.OpenSince done earlier count inside ∧
          trimLooped (upTo done).records =
            (upTo earlier).records ++ [.marker (upTo earlier).track.timeline.ms count]) ∧
    ∀ before r after, (upTo edits).records = before ++ r :: after → r.IsTop →
      ∃ done t rest, edits = done ++ .step t :: rest ∧ (upTo done).records = before ∧
        (upTo done).track.written t = [r] ∧
        (upTo done).track.timeline.loop.isOpen = false := by
  intro upTo
  have hreachable : (upTo edits).ReachableFrom p := Sprite.ReachableFrom.build.run hedits
  refine ⟨hreachable.governed.loops, ?own, fun _ _ _ => Sprite.exists_step_of_isTop hedits⟩
  case own =>
    rintro hplays done t rest rfl hopen r hr
    refine ⟨Track.isLooped_of_mem_written hopen hr, ?_, ?_⟩
    · have hwritten : (upTo done).track.written t = [r] := Track.written_eq_of_mem hr
      have hnext : ((upTo done).edit (.step t)).records = (upTo done).records ++ [r] := by
        rw [Sprite.records_edit, ← hwritten]
        rfl
      show _ <+: (p.build.run (done ++ Edit.step t :: rest)).records
      rw [← hnext, Sprite.run_append]
      exact Sprite.records_prefix_run ((upTo done).edit (.step t)) rest
    · exact Sprite.exists_openSince rfl (hplays.of_prefix ⟨_, rfl⟩) hopen

/-- A fade in a batch that was opened in a loop, after an effect that has left a loop open. -/
theorem loop_commands_stand_under_markers_in_batch :
    let p : Placement := { image := "a.png", startMs := .clamp 7 }
    let fadeIn : Step := .act (.animate .fadeIn (.clamp 100) .linear)
    let fx := Effect.empty.run [.act (.bracket (.startLoop 4)), fadeIn]
    let before : List Edit := [.applyEffect fx 3, .startLoop 2, .step (.act (.bracket .startBatch))]
    let s := p.build.run before
    (s.track.written fadeIn).map Record.isLooped = [true] ∧
    ∃ earlier count inside, p.build.OpenSince before earlier count inside ∧
      trimLooped s.records = (p.build.run earlier).records ++
        [.marker (p.build.run earlier).track.timeline.ms count] := by
  intro p fadeIn fx before s
  have hfx : fx.Reachable := Effect.Reachable.empty.run _
  have hedits : ∀ e ∈ before ++ [Edit.step fadeIn], e.Possible := by
    simp only [before, List.cons_append, List.nil_append, List.forall_mem_cons]
    exact ⟨.applyEffect hfx 3, .step _, .step _, .step fadeIn, List.forall_mem_nil _⟩
  have hplays : p.build.PlaysOutsideLoops (before ++ [Edit.step fadeIn]) := by
    rintro (_ | ⟨d, done⟩) e count rest hsplit
    · rfl
    · -- the effect is the first edit and no other
      have hrest : [.startLoop 2, .step (.act (.bracket .startBatch)), .step fadeIn] =
          done ++ .applyEffect e count :: rest := (List.cons.inj hsplit).2
      have hmem : .applyEffect e count ∈ done ++ .applyEffect e count :: rest := by simp
      rw [← hrest] at hmem
      simp at hmem
  have hwritten : s.track.written fadeIn =
      [s.track.timeline.nextCommand .fade .linear (.clamp 100)
        (Animation.fadeIn.params s.track.pose)] := rfl
  obtain ⟨-, hown, -⟩ := loop_commands_stand_under_markers p hedits
  obtain ⟨hlooped, -, hmarker⟩ := hown hplays before fadeIn [] rfl (by decide) _
    (by rw [hwritten]; exact List.mem_singleton_self _)
  rw [hwritten]
  exact ⟨congrArg (fun b => [b]) hlooped, hmarker⟩

end Storyboard
