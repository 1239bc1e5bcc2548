/-
Storyboard/Proofs/Noninterference.lean

Channels do not interfere.

Who looks at the commands of one opcode alone cannot tell a command of another opcode
from a pause, nor whether a setting of another channel was made.  `Edit.asSeen?` puts
pauses for such commands and drops such settings, and `Record.isSeen` says which records
are left to look at.

The two runs agree on three things (`Track.Alike`).  Their clocks are equal, that is
everything in a timeline but its records: a command only adds a record to what a pause
does, and no operation looks at the records (`clock_elapse`, `clock_bracket`,
`clock_play`).  Their poses agree on the channel that the opcode animates, which is all
that its commands take from a pose.  Hence they write the same records to be seen.

Main result: `channels_do_not_interfere`.
-/
import Storyboard.Proofs.Chain

namespace Storyboard

/-! ### What is seen -/

/-- The step as it is seen by who looks at the commands of one opcode. -/
def Step.asSeen? (x : Opcode) : Step → Option Step
  | .command o e d ps => some (if o = x then .command o e d ps else .act (.sleep d))
  | .act (.animate a d e) => some (if a.opcode = x then .act (.animate a d e) else .act (.sleep d))
  | .act (.assign s) => if s.channel.opcode = x then some (.act (.assign s)) else none
  | .act (.bracket b) => some (.act (.bracket b))
  | .act (.sleep d) => some (.act (.sleep d))
  | .act (.setTime ms) => some (.act (.setTime ms))

/-- The edit as it is seen by who looks at the commands of one opcode. -/
def Edit.asSeen? (x : Opcode) : Edit → Option Edit
  | .step t => (t.asSeen? x).map .step
  | .setLayer layer => some (.setLayer layer)
  | .applyEffect e count => some (.applyEffect e count)

/-- The record is not a command of another opcode. -/
def Record.isSeen (x : Opcode) : Record → Bool
  | header .. => true
  | marker .. => true
  | command _ o .. => o = x

/-! ### Clocks -/

namespace Timeline

/-- The timeline without its records. -/
def clock (t : Timeline) : Timeline := { t with chain := #[] }

theorem clock_shift (t : Timeline) (d : Ms) : (t.shift d).clock = t.clock.shift d := by
  rcases h : t.loop.isOpen with - | - <;> simp [clock, shift, h]

theorem clock_elapse (t : Timeline) (d : Ms) : (t.elapse d).clock = t.clock.elapse d := by
  rcases h : t.batch.isOpen with - | -
  · rw [elapse_of_closed h, elapse_of_closed (t := t.clock) h, clock_shift]
  · rw [elapse_of_open h, elapse_of_open (t := t.clock) h]
    rfl

theorem clock_command (t : Timeline) (o : Opcode) (e : Easing) (d : Ms) (ps : List Param) :
    (t.command o e d ps).clock = t.clock.elapse d :=
  clock_elapse _ d

theorem clock_bracket (t : Timeline) (b : Bracket) :
    (t.bracket b).clock = (t.clock.bracket b).clock := by
  have hignores : t.clock.ignores b = t.ignores b := by cases b <;> rfl
  unfold bracket
  rw [hignores]
  split
  · rfl
  · cases b with
    | startLoop count => rfl
    | endLoop => rfl
    | startBatch => rfl
    | endBatch =>
      show (shift { t with batch := { t.batch with isOpen := false } } t.batch.duration).clock =
        (shift { t.clock with batch := { t.batch with isOpen := false } } t.batch.duration).clock
      rw [clock_shift, clock_shift]
      rfl

theorem clock_play (t template : Timeline) (count : UInt32) :
    (t.play template count).clock = (t.clock.play template count).clock := rfl

end Timeline

/-! ### Two tracks that look alike -/

/-- The tracks cannot be told apart by the commands of one opcode, and never will be. -/
structure Track.Alike (x : Opcode) (t u : Track) : Prop where
  clock : t.timeline.clock = u.timeline.clock
  pose : ∀ c : Channel, c.opcode = x → t.pose.get c = u.pose.get c
  records : t.records.filter (Record.isSeen x) = u.records.filter (Record.isSeen x)

/-- Poses that agree on a channel still do after the same setting. -/
theorem Pose.get_set_congr {p q : Pose} {c : Channel} (h : p.get c = q.get c) (s : Setting) :
    (p.set s).get c = (q.set s).get c := by
  by_cases hc : s.channel = c
  · rw [← hc, get_set_self, get_set_self]
  · rw [get_set_of_ne p hc, get_set_of_ne q hc, h]

namespace Animation

theorem finish_congr {p q : Pose} {c : Channel} (h : p.get c = q.get c) (a : Animation) :
    (a.finish p).get c = (a.finish q).get c := by
  unfold finish
  split
  · exact Pose.get_set_congr h _
  · exact h

/-- An animation leaves the channels alone that other opcodes animate. -/
theorem get_finish_of_ne {a : Animation} {c : Channel} (h : a.opcode ≠ c.opcode) (p : Pose) :
    (a.finish p).get c = p.get c := by
  unfold opcode at h
  unfold finish
  split
  · rename_i s hs
    rw [hs] at h
    exact Pose.get_set_of_ne p fun hc => h (congrArg Channel.opcode hc)
  · rfl

/-- An animation takes from the pose only the channel that its opcode animates. -/
theorem params_congr {p q : Pose} {a : Animation}
    (h : ∀ c : Channel, c.opcode = a.opcode → p.get c = q.get c) : a.params p = a.params q := by
  cases a with
  | fadeIn => exact congrArg (·.params ++ _) (h .transparency rfl)
  | fadeOut => exact congrArg (·.params ++ _) (h .transparency rfl)
  | towards s => exact congrArg (·.params ++ _) (h s.channel rfl)
  | parameter f => rfl

end Animation

namespace Track.Alike

variable {x : Opcode} {t u : Track}

/-- What can be read off a clock is the same. -/
theorem congr (h : Alike x t u) {α : Type} (f : Timeline → α) (hf : ∀ v, f v = f v.clock) :
    f t.timeline = f u.timeline := by
  rw [hf t.timeline, hf u.timeline, h.clock]

/-- Both timelines go on, with equal clocks and the same new records to be seen. -/
theorem onward (h : Alike x t u) {t' u' : Track} {new new' : List Record}
    (hclock : t'.timeline.clock = u'.timeline.clock)
    (hpose : ∀ c : Channel, c.opcode = x → t'.pose.get c = u'.pose.get c)
    (ht : t'.records = t.records ++ new) (hu : u'.records = u.records ++ new')
    (hnew : new.filter (Record.isSeen x) = new'.filter (Record.isSeen x)) : Alike x t' u' where
  clock := hclock
  pose := hpose
  records := by rw [ht, hu, List.filter_append, List.filter_append, h.records, hnew]

/-- A command that is seen is written by both. -/
theorem seen (h : Alike x t u) (o : Opcode) (e : Easing) (d : Ms) (ps : List Param) {p q : Pose}
    (hpose : ∀ c : Channel, c.opcode = x → p.get c = q.get c) :
    Alike x ⟨p, t.timeline.command o e d ps⟩ ⟨q, u.timeline.command o e d ps⟩ := by
  have hnext : t.timeline.nextCommand o e d ps = u.timeline.nextCommand o e d ps :=
    h.congr (Timeline.nextCommand · o e d ps) fun _ => rfl
  refine h.onward ?_ hpose (Timeline.records_command _ o e d ps)
    (Timeline.records_command _ o e d ps) (congrArg (fun r => [r].filter (Record.isSeen x)) hnext)
  rw [Timeline.clock_command, Timeline.clock_command, h.clock]

/-- A command that is not seen takes as long as a pause. -/
theorem unseen (h : Alike x t u) {o : Opcode} (ho : o ≠ x) (e : Easing) (d : Ms)
    (ps : List Param) {p q : Pose} (hpose : ∀ c : Channel, c.opcode = x → p.get c = q.get c) :
    Alike x ⟨p, t.timeline.command o e d ps⟩ ⟨q, u.timeline.elapse d⟩ := by
  have hnothing : (u.timeline.elapse d).records = u.timeline.records ++ [] :=
    (Timeline.records_elapse _ d).trans (List.append_nil _).symm
  refine h.onward ?_ hpose (Timeline.records_command _ o e d ps) hnothing ?_
  · rw [Timeline.clock_command, Timeline.clock_elapse, h.clock]
  · simp [Record.isSeen, ho]

theorem sleep (h : Alike x t u) (d : Ms) :
    Alike x (t.step (.act (.sleep d))) (u.step (.act (.sleep d))) := by
  refine h.onward ?_ h.pose (records_step t _) (records_step u _) rfl
  show (t.timeline.elapse d).clock = (u.timeline.elapse d).clock
  rw [Timeline.clock_elapse, Timeline.clock_elapse, h.clock]

theorem bracket (h : Alike x t u) (b : Bracket) :
    Alike x (t.step (.act (.bracket b))) (u.step (.act (.bracket b))) := by
  have hopened : t.timeline.opened b = u.timeline.opened b := by
    cases b with
    | startLoop count => exact h.congr (Timeline.opened · (.startLoop count)) fun _ => rfl
    | endLoop => rfl
    | startBatch => rfl
    | endBatch => rfl
  refine h.onward ?_ h.pose (records_step t _) (records_step u _)
    (congrArg (List.filter (Record.isSeen x)) hopened)
  show (t.timeline.bracket b).clock = (u.timeline.bracket b).clock
  rw [Timeline.clock_bracket t.timeline, h.clock, ← Timeline.clock_bracket]

/-- A step, and what is seen of it. -/
theorem step (h : Alike x t u) (s : Step) : Alike x (t.step s) (u.run (s.asSeen? x).toList) := by
  cases s with
  | command o e d ps =>
    by_cases ho : o = x
    · rw [Step.asSeen?, if_pos ho]
      exact h.seen o e d ps h.pose
    · rw [Step.asSeen?, if_neg ho]
      exact h.unseen ho e d ps h.pose
  | act a =>
    cases a with
    | animate a d e =>
      by_cases ho : a.opcode = x
      · have hparams : a.params t.pose = a.params u.pose :=
          Animation.params_congr fun c hc => h.pose c (hc.trans ho)
        rw [Step.asSeen?, if_pos ho]
        show Alike x ⟨_, t.timeline.command _ e d (a.params t.pose)⟩ ⟨_, _⟩
        rw [hparams]
        exact h.seen a.opcode e d _ fun c hc => Animation.finish_congr (h.pose c hc) a
      · rw [Step.asSeen?, if_neg ho]
        refine h.unseen ho e d _ fun c hc => ?_
        rw [Animation.get_finish_of_ne (hc ▸ ho), h.pose c hc]
    | bracket b => exact h.bracket b
    | sleep d => exact h.sleep d
    | setTime ms =>
      refine ⟨?_, h.pose, h.records⟩
      show t.timeline.clock.jump ms = u.timeline.clock.jump ms
      rw [h.clock]
    | assign s =>
      by_cases hs : s.channel.opcode = x
      · rw [Step.asSeen?, if_pos hs]
        exact ⟨h.clock, fun c hc => Pose.get_set_congr (h.pose c hc) s, h.records⟩
      · rw [Step.asSeen?, if_neg hs]
        refine ⟨h.clock, fun c hc => ?_, h.records⟩
        have hother : s.channel ≠ c := fun hsame => hs (hsame ▸ hc)
        exact (Pose.get_set_of_ne _ hother).trans (h.pose c hc)

/-- Both sprites play the same effect from the same moment. -/
theorem applyEffect {s r : Sprite} (h : Alike x s.track r.track) (e : Effect) (count : UInt32) :
    Alike x (s.applyEffect e count).track (r.applyEffect e count).track := by
  have hms : s.track.timeline.ms = r.track.timeline.ms := h.congr Timeline.ms fun _ => rfl
  refine h.onward ?_ h.pose (Sprite.records_edit s (.applyEffect e count))
    (Sprite.records_edit r (.applyEffect e count)) ?_
  · show (s.track.timeline.play e.track.timeline count).clock = _
    rw [Timeline.clock_play, h.clock]
    rfl
  · rw [Sprite.written, Sprite.written, hms]

/-- An edit, and what is seen of it. -/
theorem edit {s r : Sprite} (h : Alike x s.track r.track) (e : Edit) :
    Alike x (s.edit e).track (r.run (e.asSeen? x).toList).track := by
  cases e with
  | step t =>
    have hrun (seen : Option Step) :
        (r.run (seen.map .step).toList).track = r.track.run seen.toList := by
      cases seen <;> rfl
    rw [Edit.asSeen?, hrun]
    exact h.step t
  | setLayer layer => exact h
  | applyEffect e count => exact h.applyEffect e count

/-- Edits, and what is seen of them. -/
theorem run {s r : Sprite} (h : Alike x s.track r.track) (edits : List Edit) :
    Alike x (s.run edits).track (r.run (edits.filterMap (Edit.asSeen? x))).track := by
  induction edits generalizing s r with
  | nil => exact h
  | cons e rest ih =>
    have hrest := ih (h.edit e)
    rw [← Sprite.run_append] at hrest
    have hseen : (e :: rest).filterMap (Edit.asSeen? x) =
        (e.asSeen? x).toList ++ rest.filterMap (Edit.asSeen? x) := by
      cases he : e.asSeen? x <;> simp [he]
    rw [hseen]
    exact hrest

end Track.Alike

/-! ### The theorem -/

/-- **Channels do not interfere.**  Let a sprite carry out some edits, and once more with a
pause for every command or animation of another opcode than `x`, and without the settings of
channels that `x` does not animate.  Both times it ends with the same time, loop and batch,
and with the same headers, markers and commands of opcode `x`. -/
theorem channels_do_not_interfere (x : Opcode) (s : Sprite) (edits : List Edit) :
    let full := s.run edits
    let seen := s.run (edits.filterMap (Edit.asSeen? x))
    full.track.timeline.ms = seen.track.timeline.ms ∧
    full.track.timeline.loop = seen.track.timeline.loop ∧
    full.track.timeline.batch = seen.track.timeline.batch ∧
    full.records.filter (Record.isSeen x) = seen.records.filter (Record.isSeen x) := by
  intro full seen
  have hself : s.track.Alike x s.track := ⟨rfl, fun _ _ => rfl, rfl⟩
  have hend : full.track.Alike x seen.track := hself.run edits
  exact ⟨hend.congr Timeline.ms fun _ => rfl, hend.congr Timeline.loop fun _ => rfl,
    hend.congr Timeline.batch fun _ => rfl, hend.records⟩

end Storyboard
