/-
Storyboard/Proofs/Batches.lean

The calls of a batch begin together, and a batch takes as long as the longest of them.

While a batch is open the cursor stands still, so a command is recorded the same wherever
among the calls it stands, and all that the batch keeps of the calls is a maximum.  A batch
therefore has a closed form (`Track.run_batched`): its records, one call after the other,
and its length, by which the cursor moves once.  No other order of the calls changes the
length (`BatchCall.longest_perm`), and the records change their order as the calls do.

Nothing here asks for times inside the range: a sum that saturates is still the sum of the
opening position and one duration.

Main result: `batched_calls_begin_together`.
-/
import Storyboard.Proofs.Score

namespace Storyboard

/-! ### Batches -/

/-- A call inside a batch. -/
inductive BatchCall where
  /-- A command or a pause. -/
  | cue (c : Cue)
  /-- One more opening, which the open batch ignores. -/
  | reopen

namespace BatchCall

/-- The step that a call is. -/
def step : BatchCall → Step
  | cue c => c.step
  | reopen => .act (.bracket .startBatch)

/-- The command or pause that a call is. -/
def cue? : BatchCall → Option Cue
  | cue c => some c
  | reopen => none

/-- The records of a call in a batch that was opened at a given position. -/
def records (scope : Scope) (start : Ms) : BatchCall → List Record
  | cue (.command o e d ps) => [.command scope o e start (start + d) ps]
  | cue (.sleep _) => []
  | reopen => []

/-- The longest duration among calls; none is shorter than nothing. -/
def longest (calls : List BatchCall) : Int := Cue.longest (calls.filterMap cue?)

end BatchCall

/-- Calls between the opening of a batch and its closing. -/
def batched (calls : List BatchCall) : List Step :=
  .act (.bracket .startBatch) :: (calls.map BatchCall.step ++ [.act (.bracket .endBatch)])

/-! ### Lengths -/

namespace Cue

/-- A cue is as long before another one as after it. -/
theorem longest_perm {cues cues' : List Cue} (h : cues.Perm cues') :
    longest cues = longest cues' := by
  induction h with
  | nil => rfl
  | cons c _ ih => rw [longest, longest, ih]
  | swap c d rest =>
    simp only [longest]
    omega
  | trans _ _ ih ih' => exact ih.trans ih'

theorem fits_longest (cues : List Cue) : Fits (longest cues) := by
  induction cues with
  | nil => decide
  | cons c rest ih =>
    have hlower := c.duration.lower
    have hupper := c.duration.upper
    obtain ⟨hl, hu⟩ := ih
    simp only [Fits, longest]
    omega

end Cue

theorem BatchCall.fits_longest (calls : List BatchCall) : Fits (longest calls) :=
  Cue.fits_longest _

theorem BatchCall.longest_perm {calls calls' : List BatchCall} (h : calls.Perm calls') :
    longest calls = longest calls' :=
  Cue.longest_perm (h.filterMap cue?)

/-! ### Inside a batch -/

namespace Timeline

/-- The timeline with further records and with another batch. -/
def withBatch (t : Timeline) (new : List Record) (b : BatchSpan) : Timeline :=
  { t with chain := t.chain ++ new.toArray, batch := b }

@[simp] theorem records_withBatch (t : Timeline) (new : List Record) (b : BatchSpan) :
    (t.withBatch new b).records = t.records ++ new := by
  simp [withBatch, records]

@[simp] theorem batch_withBatch (t : Timeline) (new : List Record) (b : BatchSpan) :
    (t.withBatch new b).batch = b := rfl

@[simp] theorem cursor_withBatch (t : Timeline) (new : List Record) (b : BatchSpan) :
    (t.withBatch new b).cursor = t.cursor := rfl

@[simp] theorem cursorScope_withBatch (t : Timeline) (new : List Record) (b : BatchSpan) :
    (t.withBatch new b).cursorScope = t.cursorScope := rfl

@[simp] theorem withBatch_withBatch (t : Timeline) (new more : List Record) (b c : BatchSpan) :
    (t.withBatch new b).withBatch more c = t.withBatch (new ++ more) c := by
  simp [withBatch]

theorem withBatch_self (t : Timeline) : t.withBatch [] t.batch = t := by
  simp [withBatch]

/-- Records do not matter to a shift. -/
theorem shift_withBatch (t : Timeline) (new : List Record) (b : BatchSpan) (d : Ms) :
    (t.withBatch new b).shift d = (t.shift d).withBatch new b := by
  rcases h : t.loop.isOpen with - | - <;> simp [withBatch, shift, h]

end Timeline

namespace Track

variable {t : Track}

/-- A cue in an open batch leaves its record, and the batch is at least as long. -/
theorem step_cue_of_open (hopen : t.timeline.batch.isOpen = true) (c : Cue) :
    t.step c.step = { t with
      timeline := t.timeline.withBatch
        ((BatchCall.cue c).records t.timeline.cursorScope t.timeline.cursor)
        ⟨true, max t.timeline.batch.duration c.duration⟩ } := by
  cases c with
  | command o e d ps =>
    let pushed : Timeline := t.timeline.push (.command t.timeline.cursorScope o e
      t.timeline.cursor (t.timeline.cursor + d) ps)
    refine congrArg (Track.mk t.pose) ?_
    show pushed.elapse d = _
    rw [Timeline.elapse_of_open (t := pushed) hopen]
    simp [pushed, Timeline.withBatch, Timeline.push, BatchCall.records, Cue.duration, hopen]
  | sleep d =>
    refine congrArg (Track.mk t.pose) ?_
    show t.timeline.elapse d = _
    rw [Timeline.elapse_of_open hopen]
    simp [Timeline.withBatch, BatchCall.records, Cue.duration, hopen]

/-- Calls in an open batch leave their records, and the batch is as long as the longest. -/
theorem run_batchCalls (hopen : t.timeline.batch.isOpen = true)
    (hlength : 0 ≤ t.timeline.batch.duration.toInt) (calls : List BatchCall) :
    t.run (calls.map BatchCall.step) = { t with
      timeline := t.timeline.withBatch
        (calls.flatMap (BatchCall.records t.timeline.cursorScope t.timeline.cursor))
        ⟨true, .clamp (max t.timeline.batch.duration.toInt (BatchCall.longest calls))⟩ } := by
  induction calls generalizing t with
  | nil =>
    have hbatch : (⟨true, t.timeline.batch.duration⟩ : BatchSpan) = t.timeline.batch := by
      rw [← hopen]
    show t = { t with timeline := t.timeline.withBatch [] ⟨true, .clamp (max _ 0)⟩ }
    rw [Int.max_eq_left hlength, Ms.clamp_toInt, hbatch, Timeline.withBatch_self]
  | cons call rest ih =>
    cases call with
    | cue c =>
      have hlonger : 0 ≤ (max t.timeline.batch.duration c.duration).toInt := by
        rw [Ms.toInt_max]
        omega
      have hlongest : max (max t.timeline.batch.duration c.duration).toInt
          (BatchCall.longest rest) =
            max t.timeline.batch.duration.toInt (BatchCall.longest (.cue c :: rest)) := by
        rw [Ms.toInt_max, Int.max_assoc]
        rfl
      show (t.step c.step).run (rest.map BatchCall.step) = _
      rw [step_cue_of_open hopen, ih rfl hlonger]
      -- the cursor is where it was, and the maximum of maxima is that of all
      simp only [Timeline.withBatch_withBatch, Timeline.batch_withBatch,
        Timeline.cursor_withBatch, Timeline.cursorScope_withBatch, List.flatMap_cons, hlongest]
    | reopen =>
      have hignored : t.step (.act (.bracket .startBatch)) = t :=
        congrArg (Track.mk t.pose) (Timeline.bracket_of_ignores (b := .startBatch) hopen)
      show (t.step (.act (.bracket .startBatch))).run (rest.map BatchCall.step) = _
      rw [hignored]
      exact ih hopen hlength

/-- **The closed form of a batch.** -/
theorem run_batched (hclosed : t.timeline.batch.isOpen = false) (calls : List BatchCall) :
    t.run (batched calls) = { t with
      timeline := (t.timeline.shift (.clamp (BatchCall.longest calls))).withBatch
        (calls.flatMap (BatchCall.records t.timeline.cursorScope t.timeline.cursor))
        ⟨false, .clamp (BatchCall.longest calls)⟩ } := by
  let opened : Track := { t with timeline := t.timeline.startBatch }
  let length : Ms := .clamp (BatchCall.longest calls)
  let written : List Record :=
    calls.flatMap (BatchCall.records t.timeline.cursorScope t.timeline.cursor)
  have hopened : t.step (.act (.bracket .startBatch)) = opened :=
    congrArg (Track.mk t.pose) (Timeline.bracket_startBatch hclosed)
  have hfilled : opened.run (calls.map BatchCall.step) =
      { t with timeline := t.timeline.withBatch written ⟨true, length⟩ } := by
    have hzero : max (0 : Ms).toInt (BatchCall.longest calls) = BatchCall.longest calls :=
      Int.max_eq_right (Cue.longest_nonneg _)
    have hrun : opened.run (calls.map BatchCall.step) = { t with
        timeline := t.timeline.withBatch written
          ⟨true, .clamp (max (0 : Ms).toInt (BatchCall.longest calls))⟩ } :=
      run_batchCalls (t := opened) rfl (Int.le_refl 0) calls
    rw [hrun, hzero]
  show (t.step (.act (.bracket .startBatch))).run (_ ++ _) = _
  rw [hopened, run_append, hfilled]
  refine congrArg (Track.mk t.pose) ?_
  show (t.timeline.withBatch written ⟨true, length⟩).bracket .endBatch = _
  rw [Timeline.bracket_endBatch (t := t.timeline.withBatch written ⟨true, length⟩) rfl]
  exact Timeline.shift_withBatch t.timeline written ⟨false, length⟩ length

end Track

/-! ### The theorem -/

/-- **The calls of a batch begin together.**  Let a sprite or an effect without an open batch
open one, inside a loop or outside, carry out any commands and pauses, try as it likes to
open the batch again, and close it.  All commands then start where the cursor stood when the
batch was opened, and each ends its own duration later.  The cursor moves once, by the
longest of all durations or not at all if none is positive, and the other count stays what
it was.  Any other order of the calls leaves the same state but for the records, which are
those of the same calls in the new order. -/
theorem batched_calls_begin_together {t : Track} (hclosed : t.timeline.batch.isOpen = false)
    (calls : List BatchCall) :
    let start := t.timeline.cursor
    let finish : Ms := .clamp (start.toInt + BatchCall.longest calls)
    let written := BatchCall.records t.timeline.cursorScope start
    let u := t.run (batched calls)
    u.records = t.records ++ calls.flatMap written ∧
    u.timeline.cursor = finish ∧
    (t.timeline.loop.isOpen = true →
      u.timeline.loop = { t.timeline.loop with duration := finish } ∧
      u.timeline.ms = t.timeline.ms) ∧
    (t.timeline.loop.isOpen = false →
      u.timeline.loop = t.timeline.loop ∧ u.timeline.ms = finish) ∧
    u.timeline.batch.isOpen = false ∧
    u.pose = t.pose ∧
    ∀ other, calls.Perm other →
      let v := t.run (batched other)
      v.records = t.records ++ other.flatMap written ∧
      v = { u with timeline.chain := v.timeline.chain } := by
  intro start finish written u
  let length : Ms := .clamp (BatchCall.longest calls)
  have hfinish : start + length = finish := by
    rw [Ms.add_def, Ms.toInt_clamp_of_fits (BatchCall.fits_longest calls)]
  have hu : u.timeline =
      (t.timeline.shift length).withBatch (calls.flatMap written) ⟨false, length⟩ :=
    congrArg Track.timeline (Track.run_batched hclosed calls)
  have hrecords (any : List BatchCall) :
      (t.run (batched any)).records = t.records ++ any.flatMap written := by
    rw [Track.run_batched hclosed]
    exact (Timeline.records_withBatch _ _ _).trans (congrArg (· ++ _) (Timeline.records_shift _ _))
  refine ⟨hrecords calls, ?cursor, ?looping, ?plain, ?closed, ?pose, ?permuted⟩
  case cursor =>
    rw [hu, Timeline.cursor_withBatch, Timeline.cursor_shift]
    exact hfinish
  case looping =>
    intro hopen
    rw [hu, Timeline.shift_of_open hopen, ← hfinish]
    have hstart : start = t.timeline.loop.duration := Timeline.cursor_of_open hopen
    rw [hstart]
    exact ⟨rfl, rfl⟩
  case plain =>
    intro hplain
    rw [hu, Timeline.shift_of_closed hplain, ← hfinish]
    have hstart : start = t.timeline.ms := Timeline.cursor_of_closed hplain
    rw [hstart]
    exact ⟨rfl, rfl⟩
  case closed => rw [hu, Timeline.batch_withBatch]
  case pose =>
    show (t.run (batched calls)).pose = t.pose
    rw [Track.run_batched hclosed]
  case permuted =>
    intro other hperm v
    refine ⟨hrecords other, ?_⟩
    have hv : v = _ := Track.run_batched hclosed other
    rw [← BatchCall.longest_perm hperm] at hv
    have hu : u = _ := Track.run_batched hclosed calls
    rw [hv, hu]
    rfl

/-- Inside a loop, a batch of a negative pause, two commands that end past all times and
another opening comes to the end of time in whichever order its calls stand. -/
theorem batched_calls_begin_together_in_loop :
    let s := ({ image := "a.png", startMs := .clamp 7 } : Placement).build
    let t := s.track.run [.act (.bracket (.startLoop 2)), .act (.sleep (.clamp 40))]
    let fade : BatchCall := .cue (.command .fade .linear (.clamp 0x7fffffffffffffff) [])
    let turn : BatchCall := .cue (.command .rotate .easeOut (.clamp 5) [])
    let wait : BatchCall := .cue (.sleep (.clamp (-30)))
    let u := t.run (batched [wait, fade, .reopen, turn])
    let v := t.run (batched [turn, .reopen, fade, wait])
    t.timeline.batch.isOpen = false ∧
      u.timeline.cursor.toInt = 0x7fffffffffffffff ∧ u.timeline.ms.toInt = 7 ∧
      v = { u with timeline.chain := v.timeline.chain } := by
  intro s t fade turn wait u v
  have hclosed : t.timeline.batch.isOpen = false := by decide
  have hopen : t.timeline.loop.isOpen = true := by decide
  have hperm : [wait, fade, .reopen, turn].Perm [turn, .reopen, fade, wait] :=
    List.reverse_perm [turn, .reopen, fade, wait]
  obtain ⟨-, hcursor, hloop, -, -, -, hpermuted⟩ :=
    batched_calls_begin_together hclosed [wait, fade, .reopen, turn]
  refine ⟨hclosed, ?_, ?_, (hpermuted _ hperm).2⟩
  · rw [hcursor]
    decide
  · rw [(hloop hopen).2]
    decide

end Storyboard
