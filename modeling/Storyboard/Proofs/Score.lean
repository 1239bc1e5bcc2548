/-
Storyboard/Proofs/Score.lean

Structured programs of a sprite, and the time that they take.

A `Cue` is a command or a pause, a `Phrase` is a cue or a batch of cues, and a
`Part` is a phrase, a loop of phrases or an effect that is played.  A score is a
list of parts.  A score has a meaning that needs no cursor: over unbounded whole
numbers every part has a length, and a part begins where those before it end
(`inSequence`).  A timeline instead keeps three counts of time and two flags.

The counts are tied to lengths in two steps.  Inside a batch only the batch's
own count moves, to the longest cue (`InBatch`); between two phrases the cursor
has moved by the lengths of the phrases, and it is the loop's count or `ms`
according to the loop's flag, which no phrase changes (`Advanced`).

Main result: `run_score`, for scores none of whose exact sums and products
leaves the range of times.
-/
import Storyboard.Proofs.Reachable

namespace Storyboard

/-! ### Scores -/

/-- A command or a pause. -/
inductive Cue where
  | command (opcode : Opcode) (easing : Easing) (duration : Ms) (params : List Param)
  | sleep (duration : Ms)

/-- A cue, or cues that begin together. -/
inductive Phrase where
  | cue (c : Cue)
  | batch (cues : List Cue)

/-- A phrase, phrases in a loop, or an effect. -/
inductive Part where
  | phrase (p : Phrase)
  | loop (count : UInt32) (body : List Phrase)
  | effect (e : Effect) (count : UInt32)

/-! ### Lengths -/

/-- The lengths of some things one after the other. -/
def totalLength {α : Type} (length : α → Int) : List α → Int
  | [] => 0
  | a :: rest => length a + totalLength length rest

/-- How long a cue takes. -/
def Cue.duration : Cue → Ms
  | command _ _ d _ => d
  | sleep d => d

/-- The longest of some cues; none is shorter than nothing. -/
def Cue.longest : List Cue → Int
  | [] => 0
  | c :: rest => max c.duration.toInt (longest rest)

/-- How long a phrase takes: a batch, as long as its longest cue. -/
def Phrase.length : Phrase → Int
  | cue c => c.duration.toInt
  | batch cues => Cue.longest cues

/-- How long a part takes: a loop and an effect, all their repetitions. -/
def Part.length : Part → Int
  | phrase p => p.length
  | loop count body => count.toNat * totalLength Phrase.length body
  | effect e count => count.toNat * e.length.toInt

/-! ### Calls -/

/-- The call of a cue. -/
def Cue.step : Cue → Step
  | command o e d ps => .command o e d ps
  | sleep d => .act (.sleep d)

/-- The calls of a phrase. -/
def Phrase.steps : Phrase → List Step
  | cue c => [c.step]
  | batch cues => .act (.bracket .startBatch) :: (cues.map Cue.step ++ [.act (.bracket .endBatch)])

/-- The calls of a part. -/
def Part.edits : Part → List Edit
  | phrase p => p.steps.map .step
  | loop count body => Sprite.inLoop count (body.flatMap Phrase.steps)
  | effect e count => [.applyEffect e count]

/-! ### Records -/

/-- The records of some things, each of which begins where the one before it ends. -/
def inSequence {α : Type} (length : α → Int) (records : Int → α → List Record) :
    Int → List α → List Record
  | _, [] => []
  | start, a :: rest => records start a ++ inSequence length records (start + length a) rest

/-- The record of a cue that begins at a given time. -/
def Cue.records (scope : Scope) (start : Int) : Cue → List Record
  | command o e d ps => [.command scope o e (.clamp start) (.clamp (start + d.toInt)) ps]
  | sleep _ => []

/-- The records of a phrase: the cues of a batch all begin with it. -/
def Phrase.records (scope : Scope) (start : Int) : Phrase → List Record
  | cue c => c.records scope start
  | batch cues => cues.flatMap (Cue.records scope start)

/-- The records of a part: a loop counts from its marker, and an effect is copied
as it is. -/
def Part.records (start : Int) : Part → List Record
  | phrase p => p.records .top start
  | loop count body =>
    .marker (.clamp start) count :: inSequence Phrase.length (Phrase.records .loop) 0 body
  | effect e count => .marker (.clamp start) count :: e.records

/-! ### The range of times -/

/-- A number that is a time. -/
def Fits (i : Int) : Prop := -0x8000000000000000 ≤ i ∧ i < 0x8000000000000000

/-- Each of some things that follow one another ends at a time. -/
def EndsFit {α : Type} (length : α → Int) : Int → List α → Prop
  | _, [] => True
  | start, a :: rest => Fits (start + length a) ∧ EndsFit length (start + length a) rest

/-- The sums and products inside a part are times. -/
def Part.Fits : Part → Prop
  | phrase _ => True
  | loop count body =>
    EndsFit Phrase.length 0 body ∧ Storyboard.Fits (count.toNat * totalLength Phrase.length body)
  | effect e count => Storyboard.Fits (count.toNat * e.length.toInt)

/-- No exact sum or product of a score that begins at `start` leaves the range. -/
def ScoreFits (start : Int) (score : List Part) : Prop :=
  EndsFit Part.length start score ∧ ∀ p ∈ score, p.Fits

instance (i : Int) : Decidable (Fits i) := inferInstanceAs (Decidable (_ ∧ _))

instance {α : Type} (length : α → Int) :
    (start : Int) → (as : List α) → Decidable (EndsFit length start as)
  | _, [] => .isTrue trivial
  | start, a :: rest =>
    have : Decidable (EndsFit length (start + length a) rest) := instDecidableEndsFit _ _ _
    inferInstanceAs (Decidable (_ ∧ _))

instance : DecidablePred Part.Fits
  | .phrase _ => .isTrue trivial
  | .loop _ _ => inferInstanceAs (Decidable (_ ∧ _))
  | .effect _ _ => inferInstanceAs (Decidable (Storyboard.Fits _))

instance (start : Int) (score : List Part) : Decidable (ScoreFits start score) :=
  inferInstanceAs (Decidable (_ ∧ _))

namespace Ms

theorem toInt_clamp_of_fits {i : Int} (h : Fits i) : (clamp i).toInt = i := by
  obtain ⟨hl, hu⟩ := h
  rw [toInt_clamp]
  omega

theorem toInt_add_of_fits {a b : Ms} (h : Fits (a.toInt + b.toInt)) :
    (a + b).toInt = a.toInt + b.toInt :=
  toInt_clamp_of_fits h

theorem toInt_repeated_of_fits {count : UInt32} {d : Ms} (h : Fits (count.toNat * d.toInt)) :
    (repeated count d).toInt = count.toNat * d.toInt :=
  toInt_clamp_of_fits h

end Ms

/-! ### Cues -/

namespace Cue

theorem longest_nonneg (cues : List Cue) : 0 ≤ longest cues := by
  induction cues with
  | nil => exact Int.le_refl 0
  | cons c rest ih => exact Int.le_trans ih (Int.le_max_right _ _)

end Cue

namespace Track

/-- A cue may write a record, and then its duration elapses. -/
theorem timeline_step_cue (t : Track) (c : Cue) :
    ∃ chain, (t.step c.step).timeline = { t.timeline with chain := chain }.elapse c.duration := by
  cases c with
  | command o e d ps => exact ⟨_, rfl⟩
  | sleep d => exact ⟨t.timeline.chain, rfl⟩

/-- The record of a cue begins at the cursor. -/
theorem records_step_cue (t : Track) (c : Cue) :
    (t.step c.step).records =
      t.records ++ c.records t.timeline.cursorScope t.timeline.cursor.toInt := by
  cases c with
  | command o e d ps =>
    rw [Cue.records, Ms.clamp_toInt, ← Ms.add_def]
    exact Timeline.records_command t.timeline o e d ps
  | sleep d =>
    rw [Cue.records, List.append_nil]
    exact Timeline.records_elapse t.timeline d

end Track

/-! ### Inside a batch -/

/-- `u` is `t` with more records, and the batch that is open there is `longest` long. -/
structure InBatch (t u : Timeline) (longest : Int) : Prop where
  ms : u.ms = t.ms
  scope : u.scope = t.scope
  loop : u.loop = t.loop
  batch_open : u.batch.isOpen = true
  batch_duration : u.batch.duration.toInt = longest

namespace InBatch

variable {t u : Timeline} {i : Int}

theorem cursor (h : InBatch t u i) : u.cursor = t.cursor := by
  rw [Timeline.cursor, Timeline.cursor, h.loop, h.ms]

theorem cursorScope (h : InBatch t u i) : u.cursorScope = t.cursorScope := by
  rw [Timeline.cursorScope, Timeline.cursorScope, h.loop, h.scope]

end InBatch

/-- A cue in a batch leaves the cursor alone and may make the batch longer. -/
theorem Track.inBatch_step_cue {t : Timeline} {u : Track} {i : Int} (h : InBatch t u.timeline i)
    (c : Cue) : InBatch t (u.step c.step).timeline (max i c.duration.toInt) := by
  obtain ⟨chain, hchain⟩ := u.timeline_step_cue c
  have helapse : (u.step c.step).timeline =
      { u.timeline with
        chain := chain
        batch := { u.timeline.batch with
          duration := max u.timeline.batch.duration c.duration } } := by
    rw [hchain, Timeline.elapse, if_pos h.batch_open]
  rw [helapse]
  refine ⟨h.ms, h.scope, h.loop, h.batch_open, ?_⟩
  show (max u.timeline.batch.duration c.duration).toInt = _
  rw [Ms.toInt_max, h.batch_duration]

/-- All cues of a batch begin at its cursor, and it gets as long as the longest. -/
theorem Track.inBatch_run_cues {t : Timeline} {u : Track} {i : Int} (hi : 0 ≤ i)
    (h : InBatch t u.timeline i) (cues : List Cue) :
    InBatch t (u.run (cues.map Cue.step)).timeline (max i (Cue.longest cues)) ∧
      (u.run (cues.map Cue.step)).records =
        u.records ++ cues.flatMap (Cue.records t.cursorScope t.cursor.toInt) := by
  induction cues generalizing u i with
  | nil =>
    refine ⟨?_, (List.append_nil _).symm⟩
    rw [Cue.longest, Int.max_eq_left hi]
    exact h
  | cons c rest ih =>
    have hstep := inBatch_step_cue h c
    obtain ⟨hrest, hrecords⟩ := ih (Int.le_trans hi (Int.le_max_left _ _)) hstep
    refine ⟨?_, ?_⟩
    · rw [Cue.longest, ← Int.max_assoc]
      exact hrest
    · show ((u.step c.step).run (rest.map Cue.step)).records = _
      rw [hrecords, records_step_cue, h.cursorScope, h.cursor, List.flatMap_cons,
        List.append_assoc]

/-! ### Between phrases -/

/-- From `t` to `u` no bracket is left open that was not, and the cursor has moved by
`d`.  Inside a loop that is the loop's count, and `ms` stands still. -/
structure Advanced (t u : Timeline) (d : Int) : Prop where
  scope : u.scope = t.scope
  loop_isOpen : u.loop.isOpen = t.loop.isOpen
  loop_count : u.loop.count = t.loop.count
  batch_closed : u.batch.isOpen = false
  cursor : u.cursor.toInt = t.cursor.toInt + d
  ms_of_open : t.loop.isOpen = true → u.ms = t.ms

namespace Advanced

variable {t u v : Timeline} {d d' : Int}

theorem refl (hb : t.batch.isOpen = false) : Advanced t t 0 :=
  ⟨rfl, rfl, rfl, hb, (Int.add_zero _).symm, fun _ => rfl⟩

theorem trans (h : Advanced t u d) (h' : Advanced u v d') : Advanced t v (d + d') where
  scope := h'.scope.trans h.scope
  loop_isOpen := h'.loop_isOpen.trans h.loop_isOpen
  loop_count := h'.loop_count.trans h.loop_count
  batch_closed := h'.batch_closed
  cursor := by rw [h'.cursor, h.cursor, Int.add_assoc]
  ms_of_open := fun ho =>
    (h'.ms_of_open (h.loop_isOpen.trans ho)).trans (h.ms_of_open ho)

theorem cursorScope (h : Advanced t u d) : u.cursorScope = t.cursorScope := by
  rw [Timeline.cursorScope, Timeline.cursorScope, h.loop_isOpen, h.scope]

end Advanced

/-- A timeline that differs from `t` in its records and its closed batch alone advances
from `t` when its cursor is moved. -/
theorem Timeline.advanced_shift {t u : Timeline} (hms : u.ms = t.ms) (hscope : u.scope = t.scope)
    (hloop : u.loop = t.loop) (hb : u.batch.isOpen = false) {d : Ms}
    (hfit : Fits (t.cursor.toInt + d.toInt)) : Advanced t (u.shift d) d.toInt := by
  have hcursor : u.cursor = t.cursor := by rw [cursor, cursor, hloop, hms]
  -- a shift moves the cursor and nothing else
  refine ⟨?_, ?_, ?_, ?_, ?_, ?_⟩
  · rw [scope_shift, hscope]
  · rw [loop_isOpen_shift, hloop]
  · rw [loop_count_shift, hloop]
  · rw [batch_shift, hb]
  · rw [cursor_shift, hcursor, Ms.toInt_add_of_fits hfit]
  · intro ho
    have hu : u.loop.isOpen = true := by rw [hloop, ho]
    rw [shift_of_open hu]
    exact hms

namespace Track

/-- A phrase begins at the cursor and moves it by its length. -/
theorem run_phrase {t : Track} (hb : t.timeline.batch.isOpen = false) (p : Phrase)
    (hfit : Fits (t.timeline.cursor.toInt + p.length)) :
    Advanced t.timeline (t.run p.steps).timeline p.length ∧
      (t.run p.steps).records =
        t.records ++ p.records t.timeline.cursorScope t.timeline.cursor.toInt := by
  cases p with
  | cue c =>
    refine ⟨?_, t.records_step_cue c⟩
    obtain ⟨chain, hchain⟩ := t.timeline_step_cue c
    let u : Timeline := { t.timeline with chain := chain }
    have hu : u.batch.isOpen = false := hb
    show Advanced t.timeline (t.step c.step).timeline c.duration.toInt
    rw [hchain, Timeline.elapse_of_closed hu]
    exact Timeline.advanced_shift (t := t.timeline) (u := u) rfl rfl rfl hu hfit
  | batch cues =>
    -- the batch opens with no length, and closing it moves the cursor by the longest cue
    let opened : Track := { t with timeline := t.timeline.startBatch }
    let filled : Track := opened.run (cues.map Cue.step)
    have hinside : InBatch t.timeline opened.timeline 0 := ⟨rfl, rfl, rfl, rfl, rfl⟩
    obtain ⟨hcues, hrecords⟩ := inBatch_run_cues (Int.le_refl 0) hinside cues
    rw [Int.max_eq_right (Cue.longest_nonneg cues)] at hcues
    have hrun : t.run (Phrase.batch cues).steps =
        { filled with timeline := filled.timeline.endBatch } := by
      have hopen : t.step (.act (.bracket .startBatch)) = opened :=
        congrArg (Track.mk t.pose) (Timeline.bracket_startBatch hb)
      show (t.step (.act (.bracket .startBatch))).run (_ ++ _) = _
      rw [hopen, run_append]
      exact congrArg (Track.mk filled.pose) (Timeline.bracket_endBatch hcues.batch_open)
    rw [hrun]
    refine ⟨?_, ?_⟩
    · let u : Timeline :=
        { filled.timeline with batch := { filled.timeline.batch with isOpen := false } }
      have hlength : filled.timeline.batch.duration.toInt = Cue.longest cues :=
        hcues.batch_duration
      show Advanced t.timeline (u.shift filled.timeline.batch.duration) (Cue.longest cues)
      rw [← hlength]
      refine Timeline.advanced_shift (u := u) hcues.ms hcues.scope hcues.loop rfl ?_
      rw [hlength]
      exact hfit
    · show filled.timeline.endBatch.records = _
      rw [Timeline.endBatch, Timeline.records_shift]
      exact hrecords

/-- Phrases one after the other. -/
theorem run_phrases {t : Track} (hb : t.timeline.batch.isOpen = false) (ps : List Phrase)
    (hfit : EndsFit Phrase.length t.timeline.cursor.toInt ps) :
    Advanced t.timeline (t.run (ps.flatMap Phrase.steps)).timeline
        (totalLength Phrase.length ps) ∧
      (t.run (ps.flatMap Phrase.steps)).records =
        t.records ++ inSequence Phrase.length (Phrase.records t.timeline.cursorScope)
          t.timeline.cursor.toInt ps := by
  induction ps generalizing t with
  | nil => exact ⟨.refl hb, (List.append_nil _).symm⟩
  | cons p rest ih =>
    obtain ⟨hp, hrest⟩ := hfit
    -- the first phrase moves the cursor to where the others begin
    obtain ⟨hfirst, hrecords⟩ := run_phrase hb p hp
    rw [← hfirst.cursor] at hrest
    obtain ⟨hnext, hmore⟩ := ih hfirst.batch_closed hrest
    rw [List.flatMap_cons, run_append]
    refine ⟨hfirst.trans hnext, ?_⟩
    rw [hmore, hrecords, hfirst.cursorScope, hfirst.cursor, List.append_assoc]
    rfl

end Track

/-! ### Parts of a sprite -/

/-- No bracket of the sprite is open; it has come to a time and has these records. -/
structure Resting (s : Sprite) (time : Int) (records : List Record) : Prop where
  scope : s.track.timeline.scope = .top
  loop_closed : s.track.timeline.loop.isOpen = false
  batch_closed : s.track.timeline.batch.isOpen = false
  ms : s.track.timeline.ms.toInt = time
  records : s.records = records

namespace Resting

variable {s : Sprite} {start : Int} {records : List Record}

theorem cursor (h : Resting s start records) : s.track.timeline.cursor.toInt = start := by
  rw [Timeline.cursor_of_closed h.loop_closed, h.ms]

theorem cursorScope (h : Resting s start records) : s.track.timeline.cursorScope = .top := by
  simp [Timeline.cursorScope, h.loop_closed, h.scope]

/-- A phrase outside loops. -/
theorem phrase (h : Resting s start records) (p : Phrase) (hfit : Fits (start + p.length)) :
    Resting (s.run (Part.phrase p).edits) (start + p.length)
      (records ++ p.records .top start) := by
  rw [← h.cursor] at hfit
  obtain ⟨hadvanced, hrecords⟩ := Track.run_phrase h.batch_closed p hfit
  have hclosed := hadvanced.loop_isOpen.trans h.loop_closed
  rw [Part.edits, Sprite.run_map_step]
  refine ⟨hadvanced.scope.trans h.scope, hclosed, hadvanced.batch_closed, ?_, ?_⟩
  · have hcursor := hadvanced.cursor
    rw [Timeline.cursor_of_closed hclosed, h.cursor] at hcursor
    exact hcursor
  · rw [h.cursorScope, h.cursor] at hrecords
    rw [← h.records]
    exact hrecords

/-- A loop: its count starts at zero, and `ms` jumps when it closes. -/
theorem loop (h : Resting s start records) (count : UInt32) (body : List Phrase)
    (hbody : EndsFit Phrase.length 0 body)
    (hproduct : Fits (count.toNat * totalLength Phrase.length body))
    (hfit : Fits (start + (Part.loop count body).length)) :
    Resting (s.run (Part.loop count body).edits) (start + (Part.loop count body).length)
      (records ++ (Part.loop count body).records start) := by
  -- the loop's own count is the cursor of its body, and begins at zero
  let opened : Track := { s.track with timeline := s.track.timeline.startLoop count }
  let filled : Track := opened.run (body.flatMap Phrase.steps)
  have hopen : opened.timeline.loop.isOpen = true := rfl
  obtain ⟨hadvanced, hrecords⟩ := Track.run_phrases (t := opened) h.batch_closed body hbody
  have hfilled : filled.timeline.loop.isOpen = true := hadvanced.loop_isOpen
  have hrun : s.run (Part.loop count body).edits =
      { s with track := { filled with timeline := filled.timeline.endLoop } } :=
    Sprite.run_inLoop h.loop_closed count rfl hfilled
  have hduration : filled.timeline.loop.duration.toInt = totalLength Phrase.length body := by
    have hcursor := hadvanced.cursor
    rw [Timeline.cursor_of_open hfilled] at hcursor
    exact hcursor.trans (Int.zero_add _)
  -- `ms` stands still in the body, and closing the loop adds all its rounds at once
  have hms : filled.timeline.ms = s.track.timeline.ms := hadvanced.ms_of_open hopen
  have hjump : (Ms.repeated filled.timeline.loop.count filled.timeline.loop.duration).toInt =
      (Part.loop count body).length := by
    have hcount : filled.timeline.loop.count = count := hadvanced.loop_count
    rw [hcount, Part.length, ← hduration]
    exact Ms.toInt_repeated_of_fits (hduration ▸ hproduct)
  rw [hrun]
  refine ⟨hadvanced.scope.trans h.scope, rfl, hadvanced.batch_closed, ?_, ?_⟩
  · show (filled.timeline.ms + Ms.repeated _ _).toInt = _
    rw [← h.ms, ← hjump, ← hms]
    refine Ms.toInt_add_of_fits ?_
    rw [hms, h.ms, hjump]
    exact hfit
  · have hmarker : opened.records = records ++ [Record.marker (.clamp start) count] := by
      rw [← h.records, ← h.ms, Ms.clamp_toInt]
      exact Timeline.records_push s.track.timeline _
    show filled.records = _
    rw [hrecords, hmarker, List.append_assoc]
    rfl

/-- An effect: `ms` jumps over all its repetitions. -/
theorem effect (h : Resting s start records) (e : Effect) (count : UInt32)
    (hproduct : Fits (count.toNat * e.length.toInt))
    (hfit : Fits (start + (Part.effect e count).length)) :
    Resting (s.run (Part.effect e count).edits) (start + (Part.effect e count).length)
      (records ++ (Part.effect e count).records start) := by
  have hjump : (Ms.repeated count e.length).toInt = (Part.effect e count).length :=
    Ms.toInt_repeated_of_fits hproduct
  refine ⟨h.scope, h.loop_closed, h.batch_closed, ?_, ?_⟩
  · show (s.track.timeline.ms + Ms.repeated count e.length).toInt = _
    rw [← h.ms, ← hjump]
    refine Ms.toInt_add_of_fits ?_
    rw [h.ms, hjump]
    exact hfit
  · show (s.track.timeline.play e.track.timeline count).records = _
    rw [Timeline.records_play, ← h.records, Part.records, ← h.ms, Ms.clamp_toInt]
    rfl

/-- A part takes a sprite at rest to its end, where it rests again. -/
theorem part (h : Resting s start records) {p : Part} (hp : p.Fits)
    (hfit : Fits (start + p.length)) :
    Resting (s.run p.edits) (start + p.length) (records ++ p.records start) := by
  cases p with
  | phrase p => exact h.phrase p hfit
  | loop count body => exact h.loop count body hp.1 hp.2 hfit
  | effect e count => exact h.effect e count hp hfit

/-- Parts one after the other. -/
theorem score (h : Resting s start records) {score : List Part} (hfit : ScoreFits start score) :
    Resting (s.run (score.flatMap Part.edits)) (start + totalLength Part.length score)
      (records ++ inSequence Part.length Part.records start score) := by
  induction score generalizing s start records with
  | nil =>
    rw [totalLength, Int.add_zero, inSequence, List.append_nil]
    exact h
  | cons p rest ih =>
    obtain ⟨⟨hend, hrest⟩, hparts⟩ := hfit
    have hfirst := h.part (hparts p List.mem_cons_self) hend
    have hnext := ih hfirst ⟨hrest, fun q hq => hparts q (List.mem_cons_of_mem _ hq)⟩
    rw [List.flatMap_cons, Sprite.run_append, totalLength, ← Int.add_assoc, inSequence,
      ← List.append_assoc]
    exact hnext

end Resting

/-! ### The theorem -/

/-- **Structured programs keep exact time.**  A score that begins at `start` on a sprite
without an open bracket ends at `start` plus the lengths of its parts, again without an
open bracket, and appends the records of its parts, each at the end of those before it.
All that is asked is that the exact sums and products of the score are times. -/
theorem run_score {p : Placement} {s : Sprite} (hs : s.ReachableFrom p) {start : Int}
    (hstart : s.track.timeline.ms.toInt = start)
    (hloop : s.track.timeline.loop.isOpen = false)
    (hbatch : s.track.timeline.batch.isOpen = false)
    {score : List Part} (hfit : ScoreFits start score) :
    let u := s.run (score.flatMap Part.edits)
    u.track.timeline.ms.toInt = start + totalLength Part.length score ∧
    u.track.timeline.loop.isOpen = false ∧
    u.track.timeline.batch.isOpen = false ∧
    u.records = s.records ++ inSequence Part.length Part.records start score := by
  have hrest : Resting s start s.records := ⟨hs.scope_eq, hloop, hbatch, hstart, rfl⟩
  have hend := hrest.score hfit
  exact ⟨hend.ms, hend.loop_closed, hend.batch_closed, hend.records⟩

/-- A sprite that starts at 100 fades, waits backwards, plays a batch, a loop with a batch
in it and an effect: it ends at `100 + 50 - 20 + 30 + 3 * (40 + 9) + 2 * 60`. -/
theorem run_score_of_all_parts :
    let fx := Effect.empty.step (.act (.sleep (.clamp 60)))
    let cue (d : Int) : Cue := .command .fade .linear (.clamp d) []
    let score : List Part :=
      [.phrase (.cue (cue 50)), .phrase (.cue (.sleep (.clamp (-20)))),
        .phrase (.batch [cue 10, .sleep (.clamp (-5)), cue 30]),
        .loop 3 [.cue (cue 40), .batch [cue 7, cue 9]], .effect fx 2]
    let u := ({ image := "a.png", startMs := .clamp 100 } : Placement).build.run
      (score.flatMap Part.edits)
    u.track.timeline.ms.toInt = 427 := by
  intro fx cue score u
  have hstart : ({ image := "a.png", startMs := .clamp 100 } :
      Placement).build.track.timeline.ms.toInt = 100 := rfl
  have hfit : ScoreFits 100 score := by decide
  exact (run_score .build hstart rfl rfl hfit).1

end Storyboard
