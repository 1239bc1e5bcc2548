/-
Storyboard/Proofs/Chain.lean

What calls append to a chain, and what a chain therefore holds.

`Track.written` and `Sprite.written` say once which records a call appends, as
a function of the state that it finds: at most one for a step, and a marker with
a whole template below it for an effect that is played.  Everything else in this
module is read off these two.  A sprite copies the chains of effects into its
own, so the invariant of sprites rests on that of effects:

* an effect keeps the scope of a loop, and with it writes neither a header nor
  a command of top scope (`Effect.Reachable.underLoop`);
* a sprite's chain is its header followed by records that are no headers
  (`Sprite.ReachableFrom.records_eq`).

Main result: `chains_extend_with_one_header`.
-/
import Storyboard.Proofs.Reachable

namespace Storyboard

/-! ### What a step writes -/

namespace Timeline

/-- The command that a timeline would record next. -/
def nextCommand (t : Timeline) (o : Opcode) (e : Easing) (d : Ms) (ps : List Param) : Record :=
  .command t.cursorScope o e t.cursor (t.cursor + d) ps

/-- What a bracket writes: a marker, if it opens a loop. -/
def opened (t : Timeline) : Bracket → List Record
  | .startLoop count => if t.loop.isOpen then [] else [.marker t.ms count]
  | .endLoop => []
  | .startBatch => []
  | .endBatch => []

theorem records_bracket (t : Timeline) (b : Bracket) :
    (t.bracket b).records = t.records ++ t.opened b := by
  rcases hb : t.ignores b with - | -
  · cases b with
    | startLoop count =>
      have h : t.loop.isOpen = false := hb
      rw [bracket_startLoop h, opened, if_neg (by rw [h]; exact Bool.false_ne_true)]
      exact records_push t _
    | endLoop =>
      rw [bracket, if_neg (by rw [hb]; exact Bool.false_ne_true)]
      exact (List.append_nil _).symm
    | startBatch =>
      rw [bracket, if_neg (by rw [hb]; exact Bool.false_ne_true)]
      exact (List.append_nil _).symm
    | endBatch =>
      rw [bracket, if_neg (by rw [hb]; exact Bool.false_ne_true)]
      exact (records_shift _ _).trans (List.append_nil _).symm
  · rw [bracket_of_ignores hb]
    cases b with
    | startLoop count =>
      have h : t.loop.isOpen = true := hb
      rw [opened, if_pos h, List.append_nil]
    | endLoop => exact (List.append_nil _).symm
    | startBatch => exact (List.append_nil _).symm
    | endBatch => exact (List.append_nil _).symm

end Timeline

namespace Track

/-- The records that a step appends. -/
def written (t : Track) : Step → List Record
  | .act (.animate a d e) => [t.timeline.nextCommand a.opcode e d (a.params t.pose)]
  | .act (.bracket b) => t.timeline.opened b
  | .act (.sleep _) => []
  | .act (.setTime _) => []
  | .act (.assign _) => []
  | .command o e d ps => [t.timeline.nextCommand o e d ps]

theorem records_step (t : Track) (s : Step) :
    (t.step s).records = t.records ++ t.written s := by
  cases s with
  | command o e d ps => exact Timeline.records_command t.timeline o e d ps
  | act a =>
    cases a with
    | animate a d e => exact Timeline.records_command t.timeline _ e d _
    | bracket b => exact Timeline.records_bracket t.timeline b
    | sleep d =>
      rw [written, List.append_nil]
      exact Timeline.records_elapse t.timeline d
    | setTime ms => exact (List.append_nil _).symm
    | assign s => exact (List.append_nil _).symm

end Track

namespace Sprite

/-- The records that an edit appends. -/
def written (s : Sprite) : Edit → List Record
  | .step t => s.track.written t
  | .setLayer _ => []
  | .applyEffect e count => .marker s.track.timeline.ms count :: e.records

theorem records_edit (s : Sprite) (e : Edit) :
    (s.edit e).records = s.records ++ s.written e := by
  cases e with
  | step t => exact Track.records_step s.track t
  | setLayer layer => exact (List.append_nil _).symm
  | applyEffect e count =>
    exact Timeline.records_play s.track.timeline e.track.timeline count

end Sprite

/-! ### What is never written -/

/-- The record declares a sprite. -/
def Record.IsHeader : Record → Prop
  | .header .. => True
  | .command .. => False
  | .marker .. => False

/-- The record is a command whose times count from the start of the storyboard. -/
def Record.IsTop : Record → Prop
  | .header .. => False
  | .command scope .. => scope = .top
  | .marker .. => False

/-- A step writes its command, or the marker of a loop that it opens. -/
theorem Track.mem_written {t : Track} {s : Step} {r : Record} (h : r ∈ t.written s) :
    (∃ o e d ps, r = t.timeline.nextCommand o e d ps) ∨
      (t.timeline.loop.isOpen = false ∧ ∃ count, r = .marker t.timeline.ms count) := by
  cases s with
  | command o e d ps => exact .inl ⟨o, e, d, ps, List.mem_singleton.mp h⟩
  | act a =>
    cases a with
    | animate a d e => exact .inl ⟨_, e, d, _, List.mem_singleton.mp h⟩
    | bracket b =>
      cases b with
      | startLoop count =>
        rcases hopen : t.timeline.loop.isOpen with - | -
        · simp only [written, Timeline.opened, hopen] at h
          exact .inr ⟨rfl, count, List.mem_singleton.mp h⟩
        · simp only [written, Timeline.opened, hopen] at h
          cases h
      | endLoop => cases h
      | startBatch => cases h
      | endBatch => cases h
    | sleep d => cases h
    | setTime ms => cases h
    | assign s => cases h

/-- No step writes a header. -/
theorem Track.not_isHeader_of_mem_written {t : Track} {s : Step} {r : Record}
    (h : r ∈ t.written s) : ¬ r.IsHeader := by
  obtain ⟨o, e, d, ps, rfl⟩ | ⟨-, count, rfl⟩ := mem_written h
  · exact id
  · exact id

/-- A step writes no command of top scope where a loop's scope is the only one. -/
theorem Track.not_isTop_of_mem_written {t : Track} (ht : t.timeline.scope = .loop)
    {s : Step} {r : Record} (h : r ∈ t.written s) : ¬ r.IsTop := by
  obtain ⟨o, e, d, ps, rfl⟩ | ⟨-, count, rfl⟩ := mem_written h
  · intro htop
    have hscope : t.timeline.cursorScope = .top := htop
    rw [Timeline.cursorScope, ht, ite_self] at hscope
    cases hscope
  · exact id

/-! ### Effects -/

/-- All records of an effect belong under a loop marker. -/
theorem Effect.Reachable.underLoop {e : Effect} (h : e.Reachable) :
    ∀ r ∈ e.records, ¬ r.IsHeader ∧ ¬ r.IsTop := by
  induction h with
  | empty =>
    intro r hr
    cases hr
  | @step e h s ih =>
    intro r hr
    have hrecords : (e.step s).records = e.records ++ e.track.written s :=
      Track.records_step e.track s
    rw [hrecords] at hr
    -- an old record, or one that this step has written
    rcases List.mem_append.mp hr with hold | hnew
    · exact ih r hold
    · exact ⟨Track.not_isHeader_of_mem_written hnew,
        Track.not_isTop_of_mem_written h.scope_eq hnew⟩

/-! ### Sprites -/

/-- No edit writes a header: what it copies from an effect holds none either. -/
theorem Sprite.not_isHeader_of_mem_written {s : Sprite} {e : Edit} (he : e.Possible)
    {r : Record} (h : r ∈ s.written e) : ¬ r.IsHeader := by
  cases he with
  | step t => exact Track.not_isHeader_of_mem_written h
  | setLayer layer => cases h
  | applyEffect hfx count =>
    -- the marker, or a record of the effect
    rcases List.mem_cons.mp h with rfl | hcopied
    · exact id
    · exact (hfx.underLoop r hcopied).1

/-- A chain is the header of the placement, then records that are no headers. -/
theorem Sprite.ReachableFrom.records_eq {p : Placement} {s : Sprite}
    (h : s.ReachableFrom p) :
    ∃ rest, s.records = p.header :: rest ∧ ∀ r ∈ rest, ¬ r.IsHeader := by
  induction h with
  | build =>
    refine ⟨[], rfl, ?_⟩
    intro r hr
    cases hr
  | @edit s h e he ih =>
    obtain ⟨rest, hrest, hplain⟩ := ih
    refine ⟨rest ++ s.written e, ?_, ?_⟩
    · rw [Sprite.records_edit, hrest, List.cons_append]
    · intro r hr
      rcases List.mem_append.mp hr with hold | hnew
      · exact hplain r hold
      · exact Sprite.not_isHeader_of_mem_written he hnew

/-! ### The theorem -/

/-- **Chains only grow, and their header stays.**  Whatever calls have built an
effect and a sprite, a further call leaves the chain as a prefix of the new one.
The sprite's chain begins with the header of its placement, the only header in
it; the effect's has neither a header nor a command of top scope. -/
theorem chains_extend_with_one_header {e : Effect} (he : e.Reachable) {p : Placement}
    {s : Sprite} (hs : s.ReachableFrom p) :
    (∀ t : Step, e.records <+: (e.step t).records) ∧
    (∀ r ∈ e.records, ¬ r.IsHeader ∧ ¬ r.IsTop) ∧
    (∀ d : Edit, d.Possible → s.records <+: (s.edit d).records) ∧
    ∃ rest, s.records = .header p.layer p.origin p.image p.x p.y :: rest ∧
      ∀ r ∈ rest, ¬ r.IsHeader := by
  refine ⟨?_, he.underLoop, ?_, hs.records_eq⟩
  · intro t
    exact ⟨e.track.written t, (Track.records_step e.track t).symm⟩
  · intro d _
    exact ⟨s.written d, (Sprite.records_edit s d).symm⟩

/-- The header of a sprite that was moved to another layer and position and then
played an effect still shows the first ones. -/
theorem header_of_moved_sprite :
    let fx := Effect.empty.step (.act (.animate .fadeIn (.clamp 100) .linear))
    let s := (({ image := "a.png" } : Placement).build.run
      [.setLayer .overlay, .step (.act (.assign (.position (.ofNat 0) (.ofNat 0)))),
        .applyEffect fx 3])
    ∃ rest, s.records = .header .background .centre "a.png" Pose.centreX Pose.centreY :: rest ∧
      ∀ r ∈ rest, ¬ r.IsHeader := by
  intro fx s
  have hfx : fx.Reachable := .step .empty _
  have hs : s.ReachableFrom { image := "a.png" } :=
    .edit (.edit (.edit .build (.setLayer _)) (.step _)) (.applyEffect hfx 3)
  exact (chains_extend_with_one_header hfx hs).2.2.2

end Storyboard
