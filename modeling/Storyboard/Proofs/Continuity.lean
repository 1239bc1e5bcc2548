/-
Storyboard/Proofs/Continuity.lean

Animations continue where the last one on the same channel ended.

A call gives a channel a value by setting it or by leading an animation there
(`Edit.given?`); no other call does, whatever it writes and however long it takes.
The latest value of a channel is the one that the most recent such call gave, or the
one at the beginning (`latest`).  Both are said of the list of calls alone, without a
pose.  The pose that a call finds shows the latest values of all channels
(`Pose.Shows`), because a call changes it on the channel to which it gives a value and
on no other; and an animation takes its first parameters from the pose that it finds.

Sprites and effects are built by different kinds of calls, of which those of effects are
also calls of sprites.  `Seamless` is therefore stated of any calls that stand for
edits.

Main result: `animations_continue`.
-/
import Mathlib.Data.List.Induction
import Storyboard.Proofs.Chain

namespace Storyboard

/-! ### Values that calls give -/

/-- The value that a call gives to a channel. -/
def Edit.given? : Edit → Option Setting
  | .step (.act (.animate .fadeIn _ _)) => some (.transparency (.ofNat 1))
  | .step (.act (.animate .fadeOut _ _)) => some (.transparency (.ofNat 0))
  | .step (.act (.animate (.towards s) _ _)) => some s
  | .step (.act (.animate (.parameter _) _ _)) => none
  | .step (.act (.assign s)) => some s
  | .step (.act (.bracket _)) => none
  | .step (.act (.sleep _)) => none
  | .step (.act (.setTime _)) => none
  | .step (.command ..) => none
  | .setLayer _ => none
  | .applyEffect _ _ => none

/-- The value that a call gives to a particular channel. -/
def Edit.givenTo? (c : Channel) (e : Edit) : Option Setting :=
  e.given?.filter fun s => s.channel = c

/-- The value that the most recent call gave to a channel, or the first one. -/
def latest (first : Channel → Setting) (edits : List Edit) (c : Channel) : Setting :=
  (edits.reverse.findSome? (Edit.givenTo? c)).getD (first c)

/-- The value of each channel of what is placed at a position. -/
def Channel.initial (x y : Binary64) : Channel → Setting
  | transparency => .transparency (.ofNat 0)
  | position => .position x y
  | size => .size (.ofNat 1)
  | rotation => .rotation (.ofNat 0)
  | color => .color ⟨255, 255, 255⟩

/-- Opcode and parameters of the command that leads a channel from one value to another. -/
inductive Setting.LeadsTo : Setting → Setting → Opcode → List Param → Prop
  | transparency (t₀ t : Binary64) :
      LeadsTo (.transparency t₀) (.transparency t) .fade [.number t₀, .number t]
  | position (x₀ y₀ x y : Binary64) :
      LeadsTo (.position x₀ y₀) (.position x y) .move
        [.number x₀, .number y₀, .number x, .number y]
  | size (s₀ s : Binary64) : LeadsTo (.size s₀) (.size s) .scale [.number s₀, .number s]
  | rotation (r₀ r : Binary64) :
      LeadsTo (.rotation r₀) (.rotation r) .rotate [.number r₀, .number r]
  | color (c₀ c : Rgb) :
      LeadsTo (.color c₀) (.color c) .color
        [.byte c₀.r, .byte c₀.g, .byte c₀.b, .byte c.r, .byte c.g, .byte c.b]

/-- The pose has these values, channel by channel. -/
structure Pose.Shows (p : Pose) (value : Channel → Setting) : Prop where
  transparency : value .transparency = .transparency p.transparency
  position : value .position = .position p.x p.y
  size : value .size = .size p.size
  rotation : value .rotation = .rotation p.rotation
  color : value .color = .color p.color

/-- Calls of any kind that stand for edits build tracks on which animations continue one
another. -/
structure Seamless {α : Type} (edit : α → Edit) (track : List α → Track)
    (first : Channel → Setting) : Prop where
  /-- The pose shows the latest values. -/
  pose : ∀ calls, (track calls).pose.Shows (latest first (calls.map edit))
  /-- An animation of a channel appends one command, from the latest value to its target. -/
  command : ∀ calls call a d easing target, edit call = .step (.act (.animate a d easing)) →
    (edit call).given? = some target →
    ∃ scope opcode start finish params,
      (track (calls ++ [call])).records =
        (track calls).records ++ [.command scope opcode easing start finish params] ∧
      (latest first (calls.map edit) target.channel).LeadsTo target opcode params
  /-- Further calls leave it in its place. -/
  kept : ∀ calls more, (track calls).records <+: (track (calls ++ more)).records

/-! ### Poses -/

namespace Pose

theorem shows_iff {p : Pose} {value : Channel → Setting} :
    p.Shows value ↔ ∀ c, value c = p.get c := by
  constructor
  · intro h c
    cases c with
    | transparency => exact h.transparency
    | position => exact h.position
    | size => exact h.size
    | rotation => exact h.rotation
    | color => exact h.color
  · intro h
    exact ⟨h .transparency, h .position, h .size, h .rotation, h .color⟩

theorem leadsTo_pathTo (p : Pose) (s : Setting) :
    (p.get s.channel).LeadsTo s s.channel.opcode (p.pathTo s) := by
  cases s with
  | transparency t => exact .transparency p.transparency t
  | position x y => exact .position p.x p.y x y
  | size s => exact .size p.size s
  | rotation r => exact .rotation p.rotation r
  | color c => exact .color p.color c

/-- A value that is written is shown on its channel, and the others are shown as before. -/
theorem Shows.set {p : Pose} {value : Channel → Setting} (h : p.Shows value) (s : Setting) :
    (p.set s).Shows fun c => if s.channel = c then s else value c := by
  rw [shows_iff] at h ⊢
  intro c
  split
  · rename_i hc
    rw [← hc, get_set_self]
  · rename_i hc
    rw [get_set_of_ne p hc, h c]

end Pose

/-! ### One call -/

theorem Edit.given?_animate (a : Animation) (d : Ms) (easing : Easing) :
    (Edit.step (.act (.animate a d easing))).given? = a.target? := by
  cases a <;> rfl

/-- A call changes the pose by the value that it gives, if it gives one. -/
theorem Sprite.pose_edit (s : Sprite) (e : Edit) :
    (s.edit e).track.pose = (e.given?.map s.track.pose.set).getD s.track.pose := by
  cases e with
  | step t =>
    cases t with
    | command o c d ps => rfl
    | act a =>
      cases a with
      | animate a d c =>
        rw [Edit.given?_animate]
        show a.finish s.track.pose = _
        rw [Animation.finish]
        cases a.target? <;> rfl
      | bracket b => rfl
      | sleep d => rfl
      | setTime ms => rfl
      | assign s => rfl
  | setLayer layer => rfl
  | applyEffect e count => rfl

theorem latest_concat (first : Channel → Setting) (edits : List Edit) (e : Edit) (c : Channel) :
    latest first (edits ++ [e]) c = (e.givenTo? c).getD (latest first edits c) := by
  rw [latest, List.reverse_append, List.reverse_singleton, List.singleton_append,
    List.findSome?_cons]
  cases e.givenTo? c <;> rfl

/-- The pose goes on showing the latest values. -/
theorem Sprite.shows_edit {s : Sprite} {first : Channel → Setting} {edits : List Edit}
    (h : s.track.pose.Shows (latest first edits)) (e : Edit) :
    (s.edit e).track.pose.Shows (latest first (edits ++ [e])) := by
  have hlatest : latest first (edits ++ [e]) =
      fun c => (e.givenTo? c).getD (latest first edits c) := funext (latest_concat first edits e)
  rw [hlatest, pose_edit]
  cases hgiven : e.given? with
  | none =>
    simp only [Edit.givenTo?, hgiven]
    exact h
  | some value =>
    have hset := h.set value
    have hvalue : (fun c => (e.givenTo? c).getD (latest first edits c)) =
        fun c => if value.channel = c then value else latest first edits c := by
      funext c
      by_cases hc : value.channel = c <;> simp [Edit.givenTo?, hgiven, hc, Option.filter]
    rw [hvalue]
    exact hset

/-- An animation of a channel writes the command from the pose that it finds to its target. -/
theorem Sprite.records_edit_animate (s : Sprite) {a : Animation} {d : Ms} {easing : Easing}
    {target : Setting}
    (h : (Edit.step (.act (.animate a d easing))).given? = some target) :
    ∃ scope opcode start finish params,
      (s.edit (.step (.act (.animate a d easing)))).records =
        s.records ++ [Record.command scope opcode easing start finish params] ∧
      (s.track.pose.get target.channel).LeadsTo target opcode params := by
  rw [Edit.given?_animate] at h
  have hleads := s.track.pose.leadsTo_pathTo target
  rw [← Animation.opcode_of_target h, ← Animation.params_of_target _ h] at hleads
  exact ⟨_, _, _, _, _, records_edit s _, hleads⟩

/-! ### Many calls -/

/-- Calls that change a track as their edits change a sprite with this track make it
seamless. -/
theorem Seamless.of_edits {α : Type} {edit : α → Edit} {track : List α → Track}
    {first : Channel → Setting} (hfirst : (track []).pose.Shows first)
    (hstep : ∀ calls call, ∃ s : Sprite, s.track = track calls ∧
      (s.edit (edit call)).track = track (calls ++ [call])) :
    Seamless edit track first := by
  have hpose : ∀ calls, (track calls).pose.Shows (latest first (calls.map edit)) := by
    intro calls
    induction calls using List.reverseRecOn with
    | nil => exact hfirst
    | append_singleton calls call ih =>
      obtain ⟨s, hs, hnext⟩ := hstep calls call
      rw [List.map_append, List.map_singleton, ← hnext]
      exact s.shows_edit (hs ▸ ih) (edit call)
  refine ⟨hpose, ?_, ?_⟩
  · intro calls call a d easing target hcall htarget
    obtain ⟨s, hs, hnext⟩ := hstep calls call
    have hshown := Pose.shows_iff.mp (hpose calls) target.channel
    rw [hcall] at htarget hnext
    obtain ⟨scope, opcode, start, finish, params, hrecords, hleads⟩ :=
      s.records_edit_animate htarget
    rw [Sprite.records, hnext, Sprite.records, hs] at hrecords
    rw [hs, ← hshown] at hleads
    exact ⟨scope, opcode, start, finish, params, hrecords, hleads⟩
  · intro calls more
    induction more using List.reverseRecOn with
    | nil => exact ⟨[], by rw [List.append_nil, List.append_nil]⟩
    | append_singleton more call ih =>
      obtain ⟨s, hs, hnext⟩ := hstep (calls ++ more) call
      rw [← List.append_assoc, ← hnext]
      refine ih.trans ?_
      rw [← hs]
      exact ⟨s.written (edit call), (s.records_edit (edit call)).symm⟩

/-! ### The theorem -/

/-- **Animations continue where the last one on the same channel ended.**  Let any calls
build a sprite from its placement, or an effect from the empty one: brackets may be open or
crossed, effects may be played and raw commands written in between.  The parameters of every
command that an animation writes lead from the value that the most recent call gave to its
channel, or from the first value of the channel if no call gave one, to the animation's
target; and the pose shows the values by the same rule. -/
theorem animations_continue (p : Placement) :
    Seamless id (fun edits => (p.build.run edits).track) (Channel.initial p.x p.y) ∧
    Seamless Edit.step (fun steps => (Effect.empty.run steps).track)
      (Channel.initial (.ofNat 320) (.ofNat 240)) := by
  constructor
  · refine .of_edits ⟨rfl, rfl, rfl, rfl, rfl⟩ fun edits e => ⟨p.build.run edits, rfl, ?_⟩
    rw [Sprite.run_append]
    rfl
  · -- the track of an effect, on a sprite made for it
    refine .of_edits ⟨rfl, rfl, rfl, rfl, rfl⟩ fun steps t =>
      ⟨{ p.build with track := (Effect.empty.run steps).track }, rfl, ?_⟩
    show _ = Effect.empty.track.run (steps ++ [t])
    rw [Track.run_append]
    rfl

/-- A fade goes on from the last one of the sprite itself, whatever an effect and a raw command
have written since. -/
example :
    let fx := Effect.empty.step (.act (.animate .fadeOut (.clamp 5) .linear))
    let s := ({ image := "a.png" } : Placement).build.run
      [.step (.act (.animate .fadeIn (.clamp 10) .linear)),
        .step (.act (.bracket (.startLoop 2))), .applyEffect fx 3,
        .step (.command .fade .linear (.clamp 0) [.number (.ofNat 0), .number (.ofNat 0)]),
        .step (.act (.animate (.towards (.transparency (.ofNat 2))) (.clamp 20) .linear))]
    s.records.getLast? =
      some (.command .loop .fade .linear (.clamp 0) (.clamp 20)
        [.number (.ofNat 1), .number (.ofNat 2)]) := by
  decide +kernel

end Storyboard
