/-
Storyboard/Track.lean

What sprites and effects have in common: a pose, a timeline, and the calls
that build them.

An animation records one command, from the pose to its target, and the pose is
then the target.  Brackets, pauses and jumps touch the timeline alone,
settings the pose alone.  `Action` lists the calls that a script can write on
sprites and effects alike; a `Step` is an action or a raw command, whose
parameters are the caller's.
-/
import Storyboard.Pose
import Storyboard.Timeline

namespace Storyboard

/-! ### Calls -/

/-- What an animation leads to. -/
inductive Animation where
  /-- To transparency one. -/
  | fadeIn
  /-- To transparency zero. -/
  | fadeOut
  | towards (target : Setting)
  | parameter (flag : Flag)
  deriving DecidableEq

/-- A call that sprites and effects share. -/
inductive Action where
  | animate (animation : Animation) (duration : Ms) (easing : Easing)
  | bracket (b : Bracket)
  /-- A pause. -/
  | sleep (duration : Ms)
  /-- A jump, forwards or backwards, which an open loop does not notice. -/
  | setTime (ms : Ms)
  /-- Change the pose without a record. -/
  | assign (s : Setting)
  deriving DecidableEq

/-- An action, or a command with parameters of its own. -/
inductive Step where
  | act (a : Action)
  | command (opcode : Opcode) (easing : Easing) (duration : Ms) (params : List Param)
  deriving DecidableEq

namespace Animation

/-- The setting that an animation ends in, if it has a channel. -/
def target? : Animation → Option Setting
  | fadeIn => some (.transparency (.ofNat 1))
  | fadeOut => some (.transparency (.ofNat 0))
  | towards s => some s
  | parameter _ => none

/-- The command that an animation records. -/
def opcode (a : Animation) : Opcode :=
  match a.target? with
  | some s => s.channel.opcode
  | none => .parameter

/-- The parameters of the command: where the channel is, then where it goes. -/
def params (p : Pose) : Animation → List Param
  | fadeIn => p.pathTo (.transparency (.ofNat 1))
  | fadeOut => p.pathTo (.transparency (.ofNat 0))
  | towards s => p.pathTo s
  | parameter f => [.flag f]

/-- The pose that an animation leaves. -/
def finish (a : Animation) (p : Pose) : Pose :=
  match a.target? with
  | some s => p.set s
  | none => p

theorem opcode_of_target {a : Animation} {s : Setting} (h : a.target? = some s) :
    a.opcode = s.channel.opcode := by
  rw [opcode, h]

/-- An animation with a target leads there from where the channel is. -/
theorem params_of_target (p : Pose) {a : Animation} {s : Setting} (h : a.target? = some s) :
    a.params p = p.pathTo s := by
  cases a with
  | fadeIn =>
    obtain rfl := Option.some.inj h
    rfl
  | fadeOut =>
    obtain rfl := Option.some.inj h
    rfl
  | towards t =>
    obtain rfl := Option.some.inj h
    rfl
  | parameter f => cases h

end Animation

/-! ### Tracks -/

/-- Pose and timeline of a sprite or effect. -/
structure Track where
  pose : Pose
  timeline : Timeline
  deriving DecidableEq

namespace Track

/-- The records written so far. -/
def records (t : Track) : List Record := t.timeline.records

/-- The records written so far, as lines. -/
def lines (t : Track) : List String := t.records.map Record.line

/-- Append a command as it is. -/
def command (t : Track) (opcode : Opcode) (easing : Easing) (duration : Ms)
    (params : List Param) : Track :=
  { t with timeline := t.timeline.command opcode easing duration params }

/-- Record an animation from the current pose. -/
def animate (t : Track) (a : Animation) (duration : Ms) (easing : Easing) : Track where
  pose := a.finish t.pose
  timeline := t.timeline.command a.opcode easing duration (a.params t.pose)

/-- Carry out an action. -/
def act (t : Track) : Action → Track
  | .animate a duration easing => t.animate a duration easing
  | .bracket b => { t with timeline := t.timeline.bracket b }
  | .sleep duration => { t with timeline := t.timeline.elapse duration }
  | .setTime ms => { t with timeline := t.timeline.jump ms }
  | .assign s => { t with pose := t.pose.set s }

/-- Carry out a step. -/
def step (t : Track) : Step → Track
  | .act a => t.act a
  | .command opcode easing duration params => t.command opcode easing duration params

/-- Carry out steps in order. -/
def run (t : Track) (steps : List Step) : Track := steps.foldl step t

/-- The bracket of an action that has no effect here. -/
def ignored? (t : Track) : Action → Option Bracket
  | .bracket b => if t.timeline.ignores b then some b else none
  | _ => none

/-- The bracket of a step that has no effect here. -/
def ignoredStep? (t : Track) : Step → Option Bracket
  | .act a => t.ignored? a
  | .command .. => none

theorem run_append (t : Track) (as bs : List Step) :
    t.run (as ++ bs) = (t.run as).run bs :=
  List.foldl_append

/-- An ignored action leaves the track as it is. -/
theorem act_of_ignored {t : Track} {a : Action} {b : Bracket}
    (h : t.ignored? a = some b) : t.act a = t := by
  cases a with
  | bracket c =>
    simp only [ignored?] at h
    split at h
    · rename_i hc
      simp [act, Timeline.bracket_of_ignores hc]
    · cases h
  | _ => cases h

end Track

end Storyboard
