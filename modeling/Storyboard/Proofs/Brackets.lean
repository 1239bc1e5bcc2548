/-
Storyboard/Proofs/Brackets.lean

Which brackets are open.

Loops and batches are brackets of depth one, and neither they nor other calls have to do
with each other.  So which of them are open, and with that which brackets are refused, can
be followed by looking at brackets alone (`OpenBrackets`).  A timeline has two flags instead,
which every call moves in that way, an effect that is played and a bracket that is ignored
among them (`Track.openBrackets_step`, `Sprite.openBrackets_edit`).
-/
import Storyboard.Sprite

namespace Storyboard

/-! ### Open brackets -/

/-- Which brackets are open. -/
structure OpenBrackets where
  loop : Bool := false
  batch : Bool := false
  deriving DecidableEq

namespace OpenBrackets

/-- A bracket that opens what is open or closes what is not. -/
def refuses (o : OpenBrackets) : Bracket → Bool
  | .startLoop _ => o.loop
  | .endLoop => !o.loop
  | .startBatch => o.batch
  | .endBatch => !o.batch

/-- What is open after a bracket. -/
def after (o : OpenBrackets) : Bracket → OpenBrackets
  | .startLoop _ => { o with loop := true }
  | .endLoop => { o with loop := false }
  | .startBatch => { o with batch := true }
  | .endBatch => { o with batch := false }

/-- The bracket that a call is, if it is one and refused. -/
def refusal? (o : OpenBrackets) (b? : Option Bracket) : Option Bracket := b?.filter o.refuses

/-- What is open after a call, which may be a bracket. -/
def next (o : OpenBrackets) (b? : Option Bracket) : OpenBrackets := b?.elim o o.after

/-- A bracket is refused where all is as it would leave it. -/
theorem after_eq_self_iff {o : OpenBrackets} {b : Bracket} :
    o.after b = o ↔ o.refuses b = true := by
  obtain ⟨loop, batch⟩ := o
  cases b <;> cases loop <;> cases batch <;> simp [after, refuses]

theorem next_of_refused {o : OpenBrackets} {b? : Option Bracket}
    (h : (o.refusal? b?).isSome = true) : o.next b? = o := by
  cases b? with
  | none => rfl
  | some b =>
    rw [refusal?, Option.isSome_filter] at h
    exact after_eq_self_iff.mpr h

end OpenBrackets

/-! ### Calls that are brackets -/

/-- The bracket that a step is. -/
def Step.bracket? : Step → Option Bracket
  | .act (.bracket b) => some b
  | .act (.animate ..) => none
  | .act (.sleep _) => none
  | .act (.setTime _) => none
  | .act (.assign _) => none
  | .command .. => none

/-- The bracket that an edit is. -/
def Edit.bracket? : Edit → Option Bracket
  | .step t => t.bracket?
  | .setLayer _ => none
  | .applyEffect _ _ => none

theorem Step.eq_of_bracket? {s : Step} {b : Bracket} (h : s.bracket? = some b) :
    s = .act (.bracket b) := by
  cases s with
  | command o e d ps => cases h
  | act a =>
    cases a with
    | bracket c => rw [Option.some.inj h]
    | animate a d e => cases h
    | sleep d => cases h
    | setTime ms => cases h
    | assign s => cases h

theorem Edit.eq_of_bracket? {e : Edit} {b : Bracket} (h : e.bracket? = some b) :
    e = .step (.act (.bracket b)) := by
  cases e with
  | step t => rw [Step.eq_of_bracket? h]
  | setLayer layer => cases h
  | applyEffect e count => cases h

/-! ### Timelines and their flags -/

/-- The brackets that a timeline has open. -/
def Timeline.openBrackets (t : Timeline) : OpenBrackets := ⟨t.loop.isOpen, t.batch.isOpen⟩

namespace Timeline

variable (t : Timeline)

theorem refuses_openBrackets (b : Bracket) : t.openBrackets.refuses b = t.ignores b := by
  cases b <;> rfl

theorem openBrackets_elapse (d : Ms) : (t.elapse d).openBrackets = t.openBrackets := by
  rcases h : t.batch.isOpen with - | -
  · rw [elapse_of_closed h, openBrackets, loop_isOpen_shift, batch_shift, openBrackets]
  · rw [elapse_of_open h]
    rfl

theorem openBrackets_bracket (b : Bracket) :
    (t.bracket b).openBrackets = t.openBrackets.after b := by
  rcases h : t.ignores b with - | -
  · unfold bracket
    rw [if_neg (by rw [h]; exact Bool.false_ne_true)]
    cases b with
    | startLoop count => rfl
    | endLoop => rfl
    | startBatch => rfl
    | endBatch =>
      show (shift _ _).openBrackets = _
      rw [openBrackets, loop_isOpen_shift, batch_shift]
      rfl
  · rw [bracket_of_ignores h, OpenBrackets.after_eq_self_iff.mpr]
    rw [refuses_openBrackets, h]

end Timeline

namespace Track

variable (t : Track)

theorem ignoredStep?_eq (s : Step) :
    t.ignoredStep? s = t.timeline.openBrackets.refusal? s.bracket? := by
  cases s with
  | command o e d ps => rfl
  | act a =>
    cases a with
    | bracket b =>
      show (if t.timeline.ignores b then some b else none) = Option.filter _ (some b)
      rw [Option.filter_some, Timeline.refuses_openBrackets]
    | animate a d e => rfl
    | sleep d => rfl
    | setTime ms => rfl
    | assign s => rfl

theorem step_of_ignored (s : Step) (h : (t.ignoredStep? s).isSome = true) : t.step s = t := by
  obtain ⟨b, hb⟩ := Option.isSome_iff_exists.mp h
  cases s with
  | command o e d ps => cases hb
  | act a => exact act_of_ignored hb

theorem openBrackets_step (s : Step) :
    (t.step s).timeline.openBrackets = t.timeline.openBrackets.next s.bracket? := by
  cases s with
  | command o e d ps => exact Timeline.openBrackets_elapse _ d
  | act a =>
    cases a with
    | animate a d e => exact Timeline.openBrackets_elapse _ d
    | bracket b => exact Timeline.openBrackets_bracket t.timeline b
    | sleep d => exact Timeline.openBrackets_elapse t.timeline d
    | setTime ms => rfl
    | assign s => rfl

end Track

theorem Sprite.openBrackets_edit (s : Sprite) (e : Edit) :
    (s.edit e).track.timeline.openBrackets = s.track.timeline.openBrackets.next e.bracket? := by
  cases e with
  | step t => exact s.track.openBrackets_step t
  | setLayer layer => rfl
  | applyEffect e count => rfl

end Storyboard
