/-
Storyboard/Proofs/Reachable.lean

The effects, sprites and boards that calls can build.

An effect grows from the empty one by steps.  A sprite grows from a placement
by edits, and an effect that it plays is itself one that calls have built.  A
board gets such sprites, each of which may later be changed into another one.
All three are inductive, so what one call preserves holds of everything
reachable.

What no call changes is stated here too: the scope of a timeline outside its
own loops is the one that it was created with (`Effect.Reachable.scope_eq`,
`Sprite.ReachableFrom.scope_eq`), and the image of a sprite is the one that was
placed (`Sprite.ReachableFrom.image_eq`).
-/
import Storyboard.Board

namespace Storyboard

/-! ### Reachability -/

/-- An effect that steps build from the empty one. -/
inductive Effect.Reachable : Effect → Prop
  | empty : Reachable .empty
  | step {e : Effect} (h : e.Reachable) (s : Step) : Reachable (e.step s)

/-- An edit whose effect, if it plays one, is reachable. -/
inductive Edit.Possible : Edit → Prop
  | step (s : Step) : Possible (.step s)
  | setLayer (layer : Layer) : Possible (.setLayer layer)
  | applyEffect {e : Effect} (h : e.Reachable) (count : UInt32) :
      Possible (.applyEffect e count)

/-- A sprite that possible edits build from a placement. -/
inductive Sprite.ReachableFrom (p : Placement) : Sprite → Prop
  | build : ReachableFrom p p.build
  | edit {s : Sprite} (h : s.ReachableFrom p) {e : Edit} (he : e.Possible) :
      ReachableFrom p (s.edit e)

/-- A board to which reachable sprites were added, and on which sprites were changed in
whatever way leads from reachable sprites to reachable ones. -/
inductive Board.Reachable : Board → Prop
  | empty : Reachable .empty
  | add {b : Board} (h : b.Reachable) {p : Placement} {s : Sprite} (hs : s.ReachableFrom p) :
      Reachable (b.add s)
  | modify {b : Board} (h : b.Reachable) (id : Nat) {f : Sprite → Sprite}
      (hf : ∀ {p s}, s.ReachableFrom p → ∃ q, (f s).ReachableFrom q) : Reachable (b.modify id f)

/-! ### Runs -/

theorem Effect.Reachable.run {e : Effect} (h : e.Reachable) (steps : List Step) :
    (e.run steps).Reachable := by
  induction steps generalizing e with
  | nil => exact h
  | cons s rest ih => exact ih (h.step s)

theorem Sprite.ReachableFrom.run {p : Placement} {s : Sprite} (h : s.ReachableFrom p)
    {edits : List Edit} (hedits : ∀ e ∈ edits, e.Possible) : (s.run edits).ReachableFrom p := by
  induction edits generalizing s with
  | nil => exact h
  | cons e rest ih =>
    exact ih (h.edit (hedits e List.mem_cons_self))
      fun d hd => hedits d (List.mem_cons_of_mem e hd)

/-- Every sprite of a reachable board is reachable. -/
theorem Board.Reachable.sprites {b : Board} (h : b.Reachable) :
    ∀ s ∈ b.toList, ∃ p, s.ReachableFrom p := by
  induction h with
  | empty =>
    intro s hs
    cases hs
  | @add b h p new hnew ih =>
    intro s hs
    rw [toList_add] at hs
    rcases List.mem_append.mp hs with hold | hlast
    · exact ih s hold
    · obtain rfl := List.mem_singleton.mp hlast
      exact ⟨p, hnew⟩
  | @modify b h id f hf ih =>
    intro s hs
    obtain ⟨i, hi⟩ := List.mem_iff_getElem?.mp hs
    have hplace : (b.modify id f).get? i = some s := Array.getElem?_toList.symm.trans hi
    rw [get?_modify] at hplace
    have hold {t : Sprite} (ht : b.get? i = some t) : ∃ p, t.ReachableFrom p :=
      ih t (List.mem_iff_getElem?.mpr ⟨i, Array.getElem?_toList.trans ht⟩)
    -- the sprite was changed, or it is an old one
    split at hplace
    · obtain ⟨t, ht, rfl⟩ := Option.map_eq_some_iff.mp hplace
      obtain ⟨p, hp⟩ := hold ht
      exact hf hp
    · exact hold hplace

/-! ### The scope of a timeline never changes -/

namespace Timeline

@[simp] theorem scope_shift (t : Timeline) (d : Ms) : (t.shift d).scope = t.scope := by
  unfold shift
  split <;> rfl

@[simp] theorem scope_elapse (t : Timeline) (d : Ms) : (t.elapse d).scope = t.scope := by
  unfold elapse
  split
  · rfl
  · exact scope_shift t d

@[simp] theorem scope_command (t : Timeline) (o : Opcode) (e : Easing) (d : Ms)
    (ps : List Param) : (t.command o e d ps).scope = t.scope :=
  scope_elapse _ d

@[simp] theorem scope_bracket (t : Timeline) (b : Bracket) :
    (t.bracket b).scope = t.scope := by
  unfold bracket
  split
  · rfl
  · cases b with
    | startLoop count => rfl
    | endLoop => rfl
    | startBatch => rfl
    | endBatch => exact scope_shift _ _

end Timeline

@[simp] theorem Track.scope_step (t : Track) (s : Step) :
    (t.step s).timeline.scope = t.timeline.scope := by
  cases s with
  | command o e d ps => exact Timeline.scope_command t.timeline o e d ps
  | act a =>
    cases a with
    | animate a d e => exact Timeline.scope_command t.timeline _ e d _
    | bracket b => exact Timeline.scope_bracket t.timeline b
    | sleep d => exact Timeline.scope_elapse t.timeline d
    | setTime ms => rfl
    | assign s => rfl

@[simp] theorem Sprite.scope_edit (s : Sprite) (e : Edit) :
    (s.edit e).track.timeline.scope = s.track.timeline.scope := by
  cases e with
  | step t => exact Track.scope_step s.track t
  | setLayer layer => rfl
  | applyEffect e count => rfl

/-- Commands of an effect count from the marker under which it is played. -/
theorem Effect.Reachable.scope_eq {e : Effect} (h : e.Reachable) :
    e.track.timeline.scope = .loop := by
  induction h with
  | empty => rfl
  | step _ s ih => exact (Track.scope_step _ s).trans ih

/-- Commands of a sprite outside its loops count from the start of the storyboard. -/
theorem Sprite.ReachableFrom.scope_eq {p : Placement} {s : Sprite} (h : s.ReachableFrom p) :
    s.track.timeline.scope = .top := by
  induction h with
  | build => rfl
  | edit _ _ ih => exact (Sprite.scope_edit _ _).trans ih

/-! ### The image of a sprite never changes -/

theorem Sprite.ReachableFrom.image_eq {p : Placement} {s : Sprite} (h : s.ReachableFrom p) :
    s.image = p.image := by
  induction h with
  | build => rfl
  | @edit s h e he ih =>
    cases e with
    | step t => exact ih
    | setLayer layer => exact ih
    | applyEffect e count => exact ih

end Storyboard
