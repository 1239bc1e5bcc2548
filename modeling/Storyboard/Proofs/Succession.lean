/-
Storyboard/Proofs/Succession.lean

Sequential commands never overlap.

A command of top scope ends where the cursor will be once every bracket is closed.
While a batch is open, that is as far ahead of `ms` as the batch is long; if a loop
is opened meanwhile, the batch may close inside it, and then its length is in the
loop's count.  So the invariant bounds ends by the horizon: `ms` and the longer of
what is open (`Timeline.horizon`).  No call that goes forward brings a time out of the
horizon (`Onward`).  Closing a batch inside a loop adds two lengths of which each is
bounded already, and closing a loop adds at least one round, as a loop is played at
least once.

Sums that saturate do no harm: a time that is at most the exact sum is at most the
clamped one, because it is a time (`Ms.le_add_of_le`).

Main result: `top_commands_never_overlap`.
-/
import Storyboard.Proofs.Chain

namespace Storyboard

/-! ### Calls that go forward -/

/-- The bracket, if it opens a loop, has the loop played at least once. -/
inductive Bracket.Forward : Bracket → Prop
  | startLoop {count : UInt32} (h : 1 ≤ count.toNat) : Forward (.startLoop count)
  | endLoop : Forward .endLoop
  | startBatch : Forward .startBatch
  | endBatch : Forward .endBatch

/-- A step that takes no negative time and does not jump. -/
inductive Step.Forward : Step → Prop
  | command (o : Opcode) (c : Easing) {d : Ms} (hd : 0 ≤ d.toInt) (ps : List Param) :
      Forward (.command o c d ps)
  | animate (a : Animation) {d : Ms} (hd : 0 ≤ d.toInt) (c : Easing) :
      Forward (.act (.animate a d c))
  | sleep {d : Ms} (hd : 0 ≤ d.toInt) : Forward (.act (.sleep d))
  | bracket {b : Bracket} (hb : b.Forward) : Forward (.act (.bracket b))
  | assign (s : Setting) : Forward (.act (.assign s))

/-- An edit that takes no negative time and does not jump.  What an effect does inside
itself does not matter, as long as it does not take negative time as a whole. -/
inductive Edit.Forward : Edit → Prop
  | step {s : Step} (hs : s.Forward) : Forward (.step s)
  | setLayer (layer : Layer) : Forward (.setLayer layer)
  | applyEffect {e : Effect} (he : e.Reachable) (hlength : 0 ≤ e.length.toInt) (count : UInt32) :
      Forward (.applyEffect e count)

/-! ### Times -/

namespace Ms

theorem toInt_add (a b : Ms) :
    (a + b).toInt = max (-0x8000000000000000) (min (a.toInt + b.toInt) 0x7fffffffffffffff) := rfl

theorem le_add {a d : Ms} (hd : 0 ≤ d.toInt) : a.toInt ≤ (a + d).toInt := by
  have := a.upper
  rw [toInt_add]
  omega

theorem toInt_add_le {a d : Ms} (hd : 0 ≤ d.toInt) : (a + d).toInt ≤ a.toInt + d.toInt := by
  have := a.lower
  rw [toInt_add]
  omega

/-- A time that is at most the exact sum is at most the clamped sum. -/
theorem le_add_of_le {a b c : Ms} (h : c.toInt ≤ a.toInt + b.toInt) :
    c.toInt ≤ (a + b).toInt := by
  have := c.upper
  rw [toInt_add]
  omega

theorem repeated_nonneg (count : UInt32) {d : Ms} (hd : 0 ≤ d.toInt) :
    0 ≤ (repeated count d).toInt := by
  have hproduct : 0 ≤ (count.toNat : Int) * d.toInt := Int.mul_nonneg (Int.natCast_nonneg _) hd
  rw [repeated, toInt_clamp]
  omega

/-- One round is no longer than all of them. -/
theorem le_repeated {count : UInt32} (hcount : 1 ≤ count.toNat) {d : Ms} (hd : 0 ≤ d.toInt) :
    d.toInt ≤ (repeated count d).toInt := by
  have hproduct : 1 * d.toInt ≤ (count.toNat : Int) * d.toInt :=
    Int.mul_le_mul_of_nonneg_right (Int.ofNat_le.mpr hcount) hd
  have := d.upper
  rw [repeated, toInt_clamp]
  omega

end Ms

/-! ### The horizon -/

/-- What closing the loop once would add. -/
def LoopSpan.pending (l : LoopSpan) : Int := if l.isOpen then l.duration.toInt else 0

/-- What closing the batch would add. -/
def BatchSpan.pending (b : BatchSpan) : Int := if b.isOpen then b.duration.toInt else 0

@[simp] theorem LoopSpan.pending_of_open {l : LoopSpan} (h : l.isOpen = true) :
    l.pending = l.duration.toInt :=
  if_pos h

@[simp] theorem LoopSpan.pending_of_closed {l : LoopSpan} (h : l.isOpen = false) :
    l.pending = 0 := by
  simp [pending, h]

@[simp] theorem BatchSpan.pending_of_open {b : BatchSpan} (h : b.isOpen = true) :
    b.pending = b.duration.toInt :=
  if_pos h

@[simp] theorem BatchSpan.pending_of_closed {b : BatchSpan} (h : b.isOpen = false) :
    b.pending = 0 := by
  simp [pending, h]

namespace Timeline

/-- `ms`, and the longer of what is open. -/
def horizon (t : Timeline) : Int := t.ms.toInt + max t.loop.pending t.batch.pending

/-- Counts that never went backwards. -/
structure Paced (t : Timeline) : Prop where
  rounds : t.loop.isOpen = true → 1 ≤ t.loop.count.toNat
  loop : 0 ≤ t.loop.duration.toInt
  batch : 0 ≤ t.batch.duration.toInt

/-- `u` comes after `t`: neither `ms` nor the horizon has moved back. -/
structure Onward (t u : Timeline) : Prop where
  paced : u.Paced
  ms : t.ms.toInt ≤ u.ms.toInt
  horizon : ∀ a : Ms, a.toInt ≤ t.horizon → a.toInt ≤ u.horizon

theorem horizon_of_closed {t : Timeline} (hloop : t.loop.isOpen = false)
    (hbatch : t.batch.isOpen = false) : t.horizon = t.ms.toInt := by
  simp [horizon, hloop, hbatch]

/-- A command outside loops ends within the horizon that it leaves. -/
theorem le_horizon_elapse {t : Timeline} (hclosed : t.loop.isOpen = false) {d : Ms}
    (hd : 0 ≤ d.toInt) : (t.ms + d).toInt ≤ (t.elapse d).horizon := by
  rcases hopen : t.batch.isOpen with - | -
  · rw [elapse_of_closed hopen, shift_of_closed hclosed]
    exact Int.le_of_eq (horizon_of_closed (t := { t with ms := t.ms + d }) hclosed hopen).symm
  · have hsum := Ms.toInt_add_le (a := t.ms) hd
    have hlength := Ms.toInt_max t.batch.duration d
    rw [elapse_of_open hopen]
    simp only [horizon, BatchSpan.pending, hopen, if_true]
    omega

namespace Paced

variable {t : Timeline}

theorem batch_pending (h : t.Paced) : 0 ≤ t.batch.pending := by
  have := h.batch
  unfold BatchSpan.pending
  omega

theorem onward_refl (h : t.Paced) : Onward t t :=
  ⟨h, Int.le_refl _, fun _ ha => ha⟩

theorem shift (h : t.Paced) {d : Ms} (hd : 0 ≤ d.toInt) : Onward t (t.shift d) := by
  rcases hopen : t.loop.isOpen with - | -
  · rw [shift_of_closed hopen]
    have hms : t.ms.toInt ≤ (t.ms + d).toInt := Ms.le_add hd
    refine ⟨⟨h.rounds, h.loop, h.batch⟩, hms, fun a ha => ?_⟩
    exact Int.le_trans ha (Int.add_le_add_right hms _)
  · rw [shift_of_open hopen]
    have hcount : t.loop.duration.toInt ≤ (t.loop.duration + d).toInt := Ms.le_add hd
    have hloop := h.loop
    refine ⟨⟨h.rounds, Int.le_trans hloop hcount, h.batch⟩, Int.le_refl _, fun a ha => ?_⟩
    simp only [Timeline.horizon, LoopSpan.pending, hopen, if_true] at ha ⊢
    omega

theorem elapse (h : t.Paced) {d : Ms} (hd : 0 ≤ d.toInt) : Onward t (t.elapse d) := by
  rcases hopen : t.batch.isOpen with - | -
  · rw [elapse_of_closed hopen]
    exact h.shift hd
  · rw [elapse_of_open hopen]
    have hlength := Ms.toInt_max t.batch.duration d
    have hbatch := h.batch
    refine ⟨⟨h.rounds, h.loop, ?_⟩, Int.le_refl _, fun a ha => ?_⟩
    · show 0 ≤ (max t.batch.duration d).toInt
      omega
    · simp only [Timeline.horizon, BatchSpan.pending, hopen, if_true] at ha ⊢
      omega

/-- A loop opens with no length, and what a batch has pending stays pending. -/
theorem startLoop (h : t.Paced) (hclosed : t.loop.isOpen = false) {count : UInt32}
    (hcount : 1 ≤ count.toNat) : Onward t (t.startLoop count) := by
  refine ⟨⟨fun _ => hcount, Int.le_refl _, h.batch⟩, Int.le_refl _, fun a ha => ?_⟩
  rw [Timeline.horizon, LoopSpan.pending_of_closed hclosed] at ha
  exact ha

/-- `ms` moves by at least one round. -/
theorem endLoop (h : t.Paced) (hopen : t.loop.isOpen = true) : Onward t t.endLoop := by
  have hround := Ms.le_repeated (h.rounds hopen) h.loop
  have hloop := h.loop
  have hbatch := h.batch_pending
  have hms : t.ms.toInt ≤ (t.ms + Ms.repeated t.loop.count t.loop.duration).toInt :=
    Ms.le_add (Int.le_trans hloop hround)
  refine ⟨⟨(fun hnow => by cases hnow), hloop, h.batch⟩, hms, fun a ha => ?_⟩
  rw [Timeline.horizon, LoopSpan.pending_of_open hopen] at ha
  show a.toInt ≤ (t.ms + Ms.repeated t.loop.count t.loop.duration).toInt + max 0 t.batch.pending
  -- a time up to the end of the first round is passed by `ms`, a later one was the batch's
  by_cases hfirst : a.toInt ≤ t.ms.toInt + (Ms.repeated t.loop.count t.loop.duration).toInt
  · have := Ms.le_add_of_le hfirst
    omega
  · omega

theorem startBatch (h : t.Paced) (hclosed : t.batch.isOpen = false) :
    Onward t t.startBatch := by
  refine ⟨⟨h.rounds, h.loop, Int.le_refl _⟩, Int.le_refl _, fun a ha => ?_⟩
  rw [Timeline.horizon, BatchSpan.pending_of_closed hclosed] at ha
  exact ha

/-- The cursor moves by the length of the batch, inside a loop or outside. -/
theorem endBatch (h : t.Paced) (hopen : t.batch.isOpen = true) : Onward t t.endBatch := by
  have hloop := h.loop
  have hbatch := h.batch
  let u : Timeline := { t with batch := { t.batch with isOpen := false } }
  show Onward t (u.shift t.batch.duration)
  rcases hlooping : t.loop.isOpen with - | -
  · rw [shift_of_closed (t := u) hlooping]
    have hms : t.ms.toInt ≤ (t.ms + t.batch.duration).toInt := Ms.le_add hbatch
    refine ⟨⟨h.rounds, hloop, hbatch⟩, hms, fun a ha => ?_⟩
    rw [Timeline.horizon, LoopSpan.pending_of_closed hlooping,
      BatchSpan.pending_of_open hopen] at ha
    have hpassed : a.toInt ≤ (t.ms + t.batch.duration).toInt := Ms.le_add_of_le (by omega)
    show a.toInt ≤ (t.ms + t.batch.duration).toInt + max t.loop.pending 0
    omega
  · rw [shift_of_open (t := u) hlooping]
    have hfirst : t.loop.duration.toInt ≤ (t.loop.duration + t.batch.duration).toInt :=
      Ms.le_add hbatch
    have hsecond : t.batch.duration.toInt ≤ (t.loop.duration + t.batch.duration).toInt :=
      Ms.le_add_of_le (by omega)
    refine ⟨⟨h.rounds, Int.le_trans hloop hfirst, hbatch⟩, Int.le_refl _, fun a ha => ?_⟩
    rw [Timeline.horizon, LoopSpan.pending_of_open hlooping,
      BatchSpan.pending_of_open hopen] at ha
    simp only [u, Timeline.horizon, LoopSpan.pending, hlooping, if_true]
    show a.toInt ≤ t.ms.toInt + max (t.loop.duration + t.batch.duration).toInt 0
    omega

theorem bracket (h : t.Paced) {b : Bracket} (hb : b.Forward) : Onward t (t.bracket b) := by
  rcases hignored : t.ignores b with - | -
  · cases hb with
    | startLoop hcount =>
      have hclosed : t.loop.isOpen = false := hignored
      rw [bracket_startLoop hclosed]
      exact h.startLoop hclosed hcount
    | endLoop =>
      have hopen : t.loop.isOpen = true := by simpa [ignores] using hignored
      rw [bracket_endLoop hopen]
      exact h.endLoop hopen
    | startBatch =>
      have hclosed : t.batch.isOpen = false := hignored
      rw [bracket_startBatch hclosed]
      exact h.startBatch hclosed
    | endBatch =>
      have hopen : t.batch.isOpen = true := by simpa [ignores] using hignored
      rw [bracket_endBatch hopen]
      exact h.endBatch hopen
  · rw [bracket_of_ignores hignored]
    exact h.onward_refl

theorem play (h : t.Paced) {template : Timeline} (hlength : 0 ≤ template.ms.toInt)
    (count : UInt32) : Onward t (t.play template count) := by
  have hms : t.ms.toInt ≤ (t.ms + Ms.repeated count template.ms).toInt :=
    Ms.le_add (Ms.repeated_nonneg count hlength)
  exact ⟨⟨h.rounds, h.loop, h.batch⟩, hms,
    fun a ha => Int.le_trans ha (Int.add_le_add_right hms _)⟩

end Paced

end Timeline

/-! ### Ends within the horizon -/

/-- The record, if it is a command of top scope, does not end before it starts, and ends
by the given time. -/
def Record.EndsBy (limit : Int) : Record → Prop
  | .command .top _ _ start finish _ => start.toInt ≤ finish.toInt ∧ finish.toInt ≤ limit
  | .command .loop .. => True
  | .header .. => True
  | .marker .. => True

namespace Record

theorem endsBy_of_not_isTop {r : Record} (h : ¬ r.IsTop) (limit : Int) : r.EndsBy limit := by
  cases r with
  | header => trivial
  | marker => trivial
  | command scope =>
    cases scope with
    | loop => trivial
    | top => exact absurd rfl h

theorem EndsBy.mono {r : Record} {limit limit' : Int} (h : r.EndsBy limit)
    (hlimit : ∀ a : Ms, a.toInt ≤ limit → a.toInt ≤ limit') : r.EndsBy limit' := by
  cases r with
  | header => trivial
  | marker => trivial
  | command scope _ _ start finish =>
    cases scope with
    | loop => trivial
    | top => exact ⟨h.1, hlimit finish h.2⟩

end Record

namespace Timeline

/-- A timeline whose commands of top scope all end within the horizon. -/
structure Orderly (t : Timeline) : Prop where
  paced : t.Paced
  ends : ∀ r ∈ t.records, r.EndsBy t.horizon

namespace Orderly

variable {t u : Timeline}

/-- Old records stay within the horizon as it moves on. -/
theorem onward (h : t.Orderly) (hu : Onward t u) {new : List Record}
    (hrecords : u.records = t.records ++ new) (hnew : ∀ r ∈ new, r.EndsBy u.horizon) :
    u.Orderly where
  paced := hu.paced
  ends := by
    intro r hr
    rw [hrecords] at hr
    rcases List.mem_append.mp hr with hr | hr
    · exact (h.ends r hr).mono hu.horizon
    · exact hnew r hr

theorem elapse (h : t.Orderly) {d : Ms} (hd : 0 ≤ d.toInt) :
    Onward t (t.elapse d) ∧ (t.elapse d).Orderly := by
  have hu := h.paced.elapse hd
  have hnone : ∀ r ∈ ([] : List Record), r.EndsBy (t.elapse d).horizon :=
    fun r hr => absurd hr List.not_mem_nil
  refine ⟨hu, h.onward hu ?_ hnone⟩
  rw [records_elapse, List.append_nil]

/-- A new command of top scope is one outside loops, where the cursor is `ms`. -/
theorem command (h : t.Orderly) (o : Opcode) (c : Easing) {d : Ms} (hd : 0 ≤ d.toInt)
    (ps : List Param) : Onward t (t.command o c d ps) ∧ (t.command o c d ps).Orderly := by
  -- the record itself moves nothing
  let pushed : Timeline := t.push (t.nextCommand o c d ps)
  have hpushed : pushed.Paced := ⟨h.paced.rounds, h.paced.loop, h.paced.batch⟩
  have hmoved : Onward pushed (t.command o c d ps) := hpushed.elapse hd
  have hu : Onward t (t.command o c d ps) := ⟨hmoved.paced, hmoved.ms, hmoved.horizon⟩
  refine ⟨hu, h.onward hu (records_command t o c d ps) ?_⟩
  intro r hr
  obtain rfl := List.mem_singleton.mp hr
  rcases hlooping : t.loop.isOpen with - | -
  · rw [cursor_of_closed hlooping]
    cases t.cursorScope with
    | top => exact ⟨Ms.le_add hd, le_horizon_elapse (t := pushed) hlooping hd⟩
    | loop => trivial
  · have hscope : t.cursorScope = .loop := by simp [cursorScope, hlooping]
    rw [hscope]
    trivial

theorem bracket (h : t.Orderly) {b : Bracket} (hb : b.Forward) :
    Onward t (t.bracket b) ∧ (t.bracket b).Orderly := by
  have hu := h.paced.bracket hb
  refine ⟨hu, h.onward hu (records_bracket t b) ?_⟩
  intro r hr
  cases b with
  | startLoop count =>
    rw [opened] at hr
    split at hr
    · cases hr
    · obtain rfl := List.mem_singleton.mp hr
      trivial
  | endLoop => cases hr
  | startBatch => cases hr
  | endBatch => cases hr

/-- The records of an effect have no top scope. -/
theorem play (h : t.Orderly) {e : Effect} (he : e.Reachable) (hlength : 0 ≤ e.length.toInt)
    (count : UInt32) :
    Onward t (t.play e.track.timeline count) ∧ (t.play e.track.timeline count).Orderly := by
  have hu := h.paced.play hlength count
  refine ⟨hu, h.onward hu (records_play t _ count) ?_⟩
  intro r hr
  rcases List.mem_cons.mp hr with rfl | hr
  · trivial
  · exact Record.endsBy_of_not_isTop (he.underLoop r hr).2 _

end Orderly

end Timeline

/-! ### Runs -/

open Timeline

namespace Sprite

/-- One edit. -/
theorem orderly_edit {s : Sprite} (h : s.track.timeline.Orderly) {e : Edit} (he : e.Forward) :
    Onward s.track.timeline (s.edit e).track.timeline ∧ (s.edit e).track.timeline.Orderly := by
  have hsame : Onward s.track.timeline s.track.timeline ∧ s.track.timeline.Orderly :=
    ⟨h.paced.onward_refl, h⟩
  cases he with
  | step hs =>
    cases hs with
    | command o c hd ps => exact h.command o c hd ps
    | animate a hd c => exact h.command _ c hd _
    | sleep hd => exact h.elapse hd
    | bracket hb => exact h.bracket hb
    | assign setting => exact hsame
  | setLayer layer => exact hsame
  | applyEffect he hlength count => exact h.play he hlength count

/-- Edits one after the other. -/
theorem orderly_run {s : Sprite} (h : s.track.timeline.Orderly) {edits : List Edit}
    (hedits : ∀ e ∈ edits, e.Forward) :
    s.track.timeline.ms.toInt ≤ (s.run edits).track.timeline.ms.toInt ∧
      (s.run edits).track.timeline.Orderly := by
  induction edits generalizing s with
  | nil => exact ⟨Int.le_refl _, h⟩
  | cons e rest ih =>
    obtain ⟨hfirst, horderly⟩ := orderly_edit h (hedits e List.mem_cons_self)
    obtain ⟨hrest, hend⟩ := ih horderly fun d hd => hedits d (List.mem_cons_of_mem e hd)
    exact ⟨Int.le_trans hfirst.ms hrest, hend⟩

end Sprite

theorem Placement.orderly_build (p : Placement) : p.build.track.timeline.Orderly where
  paced := ⟨(fun hopen => by cases hopen), Int.le_refl _, Int.le_refl _⟩
  ends := by
    intro r hr
    obtain rfl := List.mem_singleton.mp hr
    trivial

/-! ### What is written next -/

/-- The time that stands in a record first. -/
def Record.start? : Record → Option Ms
  | .header .. => none
  | .command _ _ _ start _ _ => some start
  | .marker start _ => some start

/-- With no loop open, what an edit writes first starts at `ms`. -/
theorem Sprite.start?_of_written {s : Sprite} (hloop : s.track.timeline.loop.isOpen = false)
    {e : Edit} {r : Record} {rest : List Record} (h : s.written e = r :: rest) :
    r.start? = some s.track.timeline.ms := by
  cases e with
  | step t =>
    have hr : r ∈ s.track.written t := by
      have hwritten : s.track.written t = r :: rest := h
      rw [hwritten]
      exact List.mem_cons_self
    obtain ⟨o, c, d, ps, rfl⟩ | ⟨-, count, rfl⟩ := Track.mem_written hr
    · exact congrArg some (cursor_of_closed hloop)
    · rfl
  | setLayer layer => cases h
  | applyEffect fx count =>
    obtain ⟨rfl, -⟩ := List.cons.inj h
    rfl

/-! ### The theorem -/

/-- **Sequential commands never overlap.**  Let a sprite carry out calls of which none
takes negative time or jumps, with every loop played at least once.  Then `ms` never
decreases.  Wherever neither a loop nor a batch is open, every command of top scope ends
no earlier than it starts and no later than `ms`; so what the next call writes first, be it
a command or a loop marker, starts no earlier than all of them end.  Brackets may cross or
stay open in between, and times may saturate. -/
theorem top_commands_never_overlap (p : Placement) {edits : List Edit}
    (hedits : ∀ e ∈ edits, e.Forward) :
    let s := p.build.run edits
    (∀ before after, edits = before ++ after →
      (p.build.run before).track.timeline.ms.toInt ≤ s.track.timeline.ms.toInt) ∧
    (s.track.timeline.loop.isOpen = false → s.track.timeline.batch.isOpen = false →
      (∀ o c start finish ps, .command .top o c start finish ps ∈ s.records →
        start.toInt ≤ finish.toInt ∧ finish.toInt ≤ s.track.timeline.ms.toInt) ∧
      ∀ d r rest, (s.edit d).records = s.records ++ r :: rest →
        ∃ next, r.start? = some next ∧
          ∀ o c start finish ps, .command .top o c start finish ps ∈ s.records →
            finish.toInt ≤ next.toInt) := by
  intro s
  have horderly : s.track.timeline.Orderly := (Sprite.orderly_run p.orderly_build hedits).2
  refine ⟨?_, fun hloop hbatch => ?_⟩
  · rintro before after rfl
    have hbefore := Sprite.orderly_run p.orderly_build fun e he =>
      hedits e (List.mem_append_left after he)
    have hafter := Sprite.orderly_run hbefore.2 fun e he =>
      hedits e (List.mem_append_right before he)
    show _ ≤ (p.build.run (before ++ after)).track.timeline.ms.toInt
    rw [Sprite.run_append]
    exact hafter.1
  · -- nothing is pending, and the horizon is `ms`
    have hends : ∀ o c start finish ps, .command .top o c start finish ps ∈ s.records →
        start.toInt ≤ finish.toInt ∧ finish.toInt ≤ s.track.timeline.ms.toInt := by
      intro o c start finish ps hr
      have hend := horderly.ends _ hr
      rw [horizon_of_closed hloop hbatch] at hend
      exact hend
    refine ⟨hends, fun d r rest hrecords => ?_⟩
    rw [Sprite.records_edit] at hrecords
    have hstart := Sprite.start?_of_written hloop (List.append_cancel_left hrecords)
    exact ⟨s.track.timeline.ms, hstart, fun o c start finish ps hr => (hends o c start finish ps hr).2⟩

/-- A batch opens before a loop and closes inside it, an effect is not played at all, and
the last fade begins when time stands still at its end. -/
theorem top_commands_of_crossing_brackets :
    let p : Placement := { image := "a.png", startMs := .clamp (-5) }
    let fx := (Effect.empty.step (.act (.sleep (.clamp (-30))))).step (.act (.sleep (.clamp 90)))
    let fade (d : Int) : Edit := .step (.act (.animate .fadeIn (.clamp d) .linear))
    let edits : List Edit :=
      [.step (.act (.bracket .startBatch)), fade 20, .step (.act (.bracket (.startLoop 2))),
        .step (.act (.bracket .endBatch)), fade 7, .step (.act (.bracket .endLoop)),
        .applyEffect fx 0, .step (.act (.sleep (.clamp 0x7fffffffffffffff))), fade 10]
    let s := p.build.run edits
    s.track.timeline.ms.toInt = 0x7fffffffffffffff ∧
      (p.build.run (edits.take 6)).track.timeline.ms.toInt = 49 ∧
      (∀ before after, edits = before ++ after →
        (p.build.run before).track.timeline.ms.toInt ≤ s.track.timeline.ms.toInt) ∧
      ∀ o c start finish ps, .command .top o c start finish ps ∈ s.records →
        start.toInt ≤ finish.toInt ∧ finish.toInt ≤ s.track.timeline.ms.toInt := by
  intro p fx fade edits s
  have hfade {d : Int} (hd : 0 ≤ (Ms.clamp d).toInt) : (fade d).Forward := .step (.animate _ hd _)
  have hedits : ∀ e ∈ edits, e.Forward := by
    intro e he
    simp only [edits, List.mem_cons, List.not_mem_nil, or_false] at he
    obtain rfl | rfl | rfl | rfl | rfl | rfl | rfl | rfl | rfl := he
    · exact .step (.bracket .startBatch)
    · exact hfade (by decide)
    · exact .step (.bracket (.startLoop (by decide)))
    · exact .step (.bracket .endBatch)
    · exact hfade (by decide)
    · exact .step (.bracket .endLoop)
    · exact .applyEffect (.step (.step .empty _) _) (by decide) 0
    · exact .step (.sleep (by decide))
    · exact hfade (by decide)
  obtain ⟨hms, hends⟩ := top_commands_never_overlap p hedits
  exact ⟨by decide, by decide, hms, (hends (by decide) (by decide)).1⟩

end Storyboard
