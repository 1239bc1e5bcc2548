/-
Storyboard/Proofs/Unbounded.lean

Without negative times, saturation is a clamp at the end.

An `ExactTimeline` counts in natural numbers and never saturates; otherwise it
carries out the same calls.  Capping its counts and the times of its records gives
a timeline (`ExactTimeline.capped`).  No count can fall, so one that has left the
range stays outside, and the cap of a sum, a maximum or a multiple is the clamped
sum, maximum or multiple of the caps (`Ms.cap_add`, `Ms.cap_max`, `Ms.repeated_cap`).
Zero rounds of a loop are no exception: they take no time whether or not the count of
one round was capped.  So every operation commutes with capping, and the timeline of
a run is the capped one of the exact run.

A sprite plays effects that were built elsewhere, and the exact run needs their exact
counts.  A `Direction` is therefore an edit with the calls of its effect written out.

Main result: `saturation_is_a_clamp`.
-/
import Mathlib.Data.List.Forall2
import Storyboard.Sprite

namespace Storyboard

/-! ### Capped numbers -/

/-- The time of a natural number, or the last time if there is none. -/
def Ms.cap (n : Nat) : Ms := .clamp n

namespace Ms

theorem toInt_cap (n : Nat) : (cap n).toInt = min n 0x7fffffffffffffff := by
  rw [cap, toInt_clamp]
  omega

theorem cap_add (m n : Nat) : cap (m + n) = cap m + cap n := by
  ext
  rw [add_def, toInt_clamp, toInt_cap, toInt_cap, toInt_cap]
  omega

theorem cap_max (m n : Nat) : cap (max m n) = max (cap m) (cap n) := by
  ext
  rw [toInt_max, toInt_cap, toInt_cap, toInt_cap]
  omega

/-- Capping one round first makes no difference: without rounds there is no time, and
one round out of the range is enough to leave it. -/
theorem repeated_cap (count : UInt32) (n : Nat) :
    repeated count (cap n) = cap (count.toNat * n) := by
  ext
  rw [repeated, toInt_clamp, toInt_cap, toInt_cap, ← Int.natCast_mul]
  by_cases hn : n ≤ 0x7fffffffffffffff
  · rw [Nat.min_eq_left hn]
    omega
  · rw [Nat.min_eq_right (by omega)]
    rcases Nat.eq_zero_or_pos count.toNat with hzero | hpos
    · rw [hzero]
      omega
    · have hround := Nat.le_mul_of_pos_left n hpos
      omega

/-- A time that is not negative is a natural number. -/
theorem cap_toNat {a : Ms} (h : 0 ≤ a.toInt) : cap a.toInt.toNat = a := by
  rw [cap, Int.toNat_of_nonneg h, clamp_toInt]

end Ms

/-! ### Timelines that never saturate -/

/-- A record with times of any size. -/
inductive ExactRecord where
  | header (layer : Layer) (origin : Origin) (image : String) (x y : Binary64)
  | command (scope : Scope) (opcode : Opcode) (easing : Easing) (start finish : Nat)
      (params : List Param)
  | marker (start : Nat) (count : UInt32)
  deriving DecidableEq

/-- The counts of a timeline as natural numbers of any size, and its records. -/
structure ExactTimeline where
  ms : Nat
  scope : Scope
  records : List ExactRecord := []
  looping : Bool := false
  rounds : UInt32 := 0
  loopDuration : Nat := 0
  batching : Bool := false
  batchDuration : Nat := 0
  deriving DecidableEq

namespace ExactTimeline

/-- The start of the next command. -/
def cursor (x : ExactTimeline) : Nat := if x.looping then x.loopDuration else x.ms

/-- The scope of the next command. -/
def cursorScope (x : ExactTimeline) : Scope := if x.looping then .loop else x.scope

/-- Append a record. -/
def push (x : ExactTimeline) (r : ExactRecord) : ExactTimeline :=
  { x with records := x.records ++ [r] }

/-- Move the count that is in use. -/
def shift (x : ExactTimeline) (d : Nat) : ExactTimeline :=
  if x.looping then { x with loopDuration := x.loopDuration + d } else { x with ms := x.ms + d }

/-- Let time pass, inside a batch or outside. -/
def elapse (x : ExactTimeline) (d : Nat) : ExactTimeline :=
  if x.batching then { x with batchDuration := max x.batchDuration d } else x.shift d

/-- Append a command and let its duration pass. -/
def command (x : ExactTimeline) (o : Opcode) (c : Easing) (d : Nat) (ps : List Param) :
    ExactTimeline :=
  (x.push (.command x.cursorScope o c x.cursor (x.cursor + d) ps)).elapse d

/-- Open or close a loop or batch, if it is not so already. -/
def bracket (x : ExactTimeline) : Bracket → ExactTimeline
  | .startLoop count =>
    if x.looping then x
    else { x.push (.marker x.ms count) with looping := true, rounds := count, loopDuration := 0 }
  | .endLoop =>
    if x.looping then
      { x with looping := false, ms := x.ms + x.rounds.toNat * x.loopDuration }
    else x
  | .startBatch => if x.batching then x else { x with batching := true, batchDuration := 0 }
  | .endBatch =>
    if x.batching then { x with batching := false }.shift x.batchDuration else x

/-- Play a template under a marker. -/
def play (x template : ExactTimeline) (count : UInt32) : ExactTimeline :=
  { x with
    records := x.records ++ .marker x.ms count :: template.records
    ms := x.ms + count.toNat * template.ms }

end ExactTimeline

/-- A pose, and a timeline that never saturates. -/
structure ExactTrack where
  pose : Pose
  timeline : ExactTimeline
  deriving DecidableEq

/-- An edit, with the calls of its effect written out. -/
inductive Direction where
  | step (s : Step)
  | setLayer (layer : Layer)
  | perform (body : List Step) (count : UInt32)

namespace ExactTrack

/-- Carry out a step, whose times are not negative. -/
def step (x : ExactTrack) : Step → ExactTrack
  | .command o c d ps => { x with timeline := x.timeline.command o c d.toInt.toNat ps }
  | .act (.animate a d c) =>
    { pose := a.finish x.pose
      timeline := x.timeline.command a.opcode c d.toInt.toNat (a.params x.pose) }
  | .act (.bracket b) => { x with timeline := x.timeline.bracket b }
  | .act (.sleep d) => { x with timeline := x.timeline.elapse d.toInt.toNat }
  | .act (.setTime ms) => { x with timeline.ms := ms.toInt.toNat }
  | .act (.assign s) => { x with pose := x.pose.set s }

/-- The track of an effect without records, from time zero on. -/
def empty : ExactTrack := ⟨.initial, { ms := 0, scope := .loop }⟩

/-- Carry out steps in order. -/
def run (x : ExactTrack) (steps : List Step) : ExactTrack := steps.foldl step x

/-- Carry out a direction; the layer of a sprite is not on its track. -/
def follow (x : ExactTrack) : Direction → ExactTrack
  | .step s => x.step s
  | .setLayer _ => x
  | .perform body count =>
    { x with timeline := x.timeline.play (empty.run body).timeline count }

/-- Carry out directions in order. -/
def followAll (x : ExactTrack) (ds : List Direction) : ExactTrack := ds.foldl follow x

/-- The track of a sprite of which nothing but its header is written. -/
def ofPlacement (p : Placement) : ExactTrack where
  pose := .placedAt p.x p.y
  timeline :=
    { ms := p.startMs.toInt.toNat
      scope := .top
      records := [.header p.layer p.origin p.image p.x p.y] }

end ExactTrack

/-! ### The same calls -/

/-- The edit of a direction: an effect is built by its calls. -/
def Direction.edit : Direction → Edit
  | step s => .step s
  | setLayer layer => .setLayer layer
  | perform body count => .applyEffect (Effect.empty.run body) count

/-- The times that a step mentions. -/
def Step.times : Step → List Ms
  | .command _ _ d _ => [d]
  | .act (.animate _ d _) => [d]
  | .act (.bracket _) => []
  | .act (.sleep d) => [d]
  | .act (.setTime ms) => [ms]
  | .act (.assign _) => []

/-- The times that a direction mentions. -/
def Direction.times : Direction → List Ms
  | step s => s.times
  | setLayer _ => []
  | perform body _ => body.flatMap Step.times

/-! ### Capping -/

/-- The record with capped times. -/
def ExactRecord.capped : ExactRecord → Record
  | header layer origin image x y => .header layer origin image x y
  | command scope o c start finish ps => .command scope o c (.cap start) (.cap finish) ps
  | marker start count => .marker (.cap start) count

/-- The timeline with capped counts and records. -/
def ExactTimeline.capped (x : ExactTimeline) : Timeline where
  ms := .cap x.ms
  scope := x.scope
  chain := (x.records.map ExactRecord.capped).toArray
  loop := ⟨x.looping, x.rounds, .cap x.loopDuration⟩
  batch := ⟨x.batching, .cap x.batchDuration⟩

/-- The track with a capped timeline. -/
def ExactTrack.capped (x : ExactTrack) : Track := ⟨x.pose, x.timeline.capped⟩

namespace ExactTimeline

theorem cursor_capped (x : ExactTimeline) : x.capped.cursor = .cap x.cursor := by
  cases h : x.looping <;> simp [Timeline.cursor, capped, cursor, h]

theorem capped_push (x : ExactTimeline) (r : ExactRecord) :
    (x.push r).capped = x.capped.push r.capped := by
  simp [push, capped, Timeline.push]

theorem capped_shift (x : ExactTimeline) (d : Nat) :
    (x.shift d).capped = x.capped.shift (.cap d) := by
  cases h : x.looping <;> simp [shift, capped, Timeline.shift, h, Ms.cap_add]

theorem capped_elapse (x : ExactTimeline) (d : Nat) :
    (x.elapse d).capped = x.capped.elapse (.cap d) := by
  cases h : x.batching with
  | false =>
    have hclosed : x.capped.batch.isOpen = false := h
    rw [Timeline.elapse_of_closed hclosed, ← capped_shift]
    simp [elapse, h]
  | true => simp [elapse, capped, Timeline.elapse, h, Ms.cap_max]

theorem capped_command (x : ExactTimeline) (o : Opcode) (c : Easing) (d : Nat)
    (ps : List Param) : (x.command o c d ps).capped = x.capped.command o c (.cap d) ps := by
  rw [command, capped_elapse, capped_push, Timeline.command, cursor_capped, ExactRecord.capped,
    Ms.cap_add]
  rfl

theorem capped_bracket (x : ExactTimeline) (b : Bracket) :
    (x.bracket b).capped = x.capped.bracket b := by
  cases b with
  | startLoop count =>
    cases h : x.looping with
    | true =>
      have hignored : x.capped.ignores (.startLoop count) = true := h
      rw [Timeline.bracket_of_ignores hignored]
      simp [bracket, h]
    | false =>
      have hclosed : x.capped.loop.isOpen = false := h
      have hpushed := capped_push x (.marker x.ms count)
      rw [Timeline.bracket_startLoop hclosed, bracket, if_neg (by simp [h])]
      exact congrArg (fun t : Timeline => { t with loop := ⟨true, count, 0⟩ }) hpushed
  | endLoop =>
    cases h : x.looping with
    | true =>
      have hopen : x.capped.loop.isOpen = true := h
      rw [Timeline.bracket_endLoop hopen]
      simp [bracket, h, capped, Timeline.endLoop, Ms.cap_add, Ms.repeated_cap]
    | false =>
      have hignored : x.capped.ignores .endLoop = true := by simp [Timeline.ignores, capped, h]
      rw [Timeline.bracket_of_ignores hignored]
      simp [bracket, h]
  | startBatch =>
    cases h : x.batching with
    | true =>
      have hignored : x.capped.ignores .startBatch = true := h
      rw [Timeline.bracket_of_ignores hignored]
      simp [bracket, h]
    | false =>
      have hclosed : x.capped.batch.isOpen = false := h
      rw [Timeline.bracket_startBatch hclosed, bracket, if_neg (by simp [h])]
      rfl
  | endBatch =>
    cases h : x.batching with
    | true =>
      have hopen : x.capped.batch.isOpen = true := h
      rw [Timeline.bracket_endBatch hopen, bracket, if_pos h, capped_shift]
      rfl
    | false =>
      have hignored : x.capped.ignores .endBatch = true := by simp [Timeline.ignores, capped, h]
      rw [Timeline.bracket_of_ignores hignored]
      simp [bracket, h]

theorem capped_play (x template : ExactTimeline) (count : UInt32) :
    (x.play template count).capped = x.capped.play template.capped count := by
  simp [play, capped, Timeline.play, ExactRecord.capped, Ms.cap_add, Ms.repeated_cap]

end ExactTimeline

/-! ### Runs -/

namespace ExactTrack

open ExactTimeline

/-- A step without negative times commutes with capping. -/
theorem capped_step (x : ExactTrack) {s : Step} (hs : ∀ a ∈ s.times, 0 ≤ a.toInt) :
    (x.step s).capped = x.capped.step s := by
  cases s with
  | command o c d ps =>
    have hd := Ms.cap_toNat (hs d List.mem_cons_self)
    rw [step, capped, capped_command, hd]
    rfl
  | act a =>
    cases a with
    | animate a d c =>
      have hd := Ms.cap_toNat (hs d List.mem_cons_self)
      rw [step, capped, capped_command, hd]
      rfl
    | bracket b =>
      rw [step, capped, capped_bracket]
      rfl
    | sleep d =>
      have hd := Ms.cap_toNat (hs d List.mem_cons_self)
      rw [step, capped, capped_elapse, hd]
      rfl
    | setTime ms =>
      have hms := Ms.cap_toNat (hs ms List.mem_cons_self)
      show Track.mk x.pose { x.timeline.capped with ms := .cap ms.toInt.toNat } = _
      rw [hms]
      rfl
    | assign s => rfl

theorem capped_run (x : ExactTrack) {steps : List Step}
    (hsteps : ∀ s ∈ steps, ∀ a ∈ s.times, 0 ≤ a.toInt) :
    (x.run steps).capped = x.capped.run steps := by
  induction steps generalizing x with
  | nil => rfl
  | cons s rest ih =>
    have hrest := ih (x.step s) fun t ht => hsteps t (List.mem_cons_of_mem s ht)
    rw [capped_step x (hsteps s List.mem_cons_self)] at hrest
    exact hrest

/-- An effect is the capped one of its exact run. -/
theorem capped_effect {body : List Step} (hbody : ∀ s ∈ body, ∀ a ∈ s.times, 0 ≤ a.toInt) :
    (empty.run body).capped = (Effect.empty.run body).track := by
  rw [capped_run empty hbody]
  rfl

/-- So does a direction: the effect that it performs is capped when it is played. -/
theorem capped_follow (x : ExactTrack) {s : Sprite} (hx : x.capped = s.track) {d : Direction}
    (hd : ∀ a ∈ d.times, 0 ≤ a.toInt) : (x.follow d).capped = (s.edit d.edit).track := by
  cases d with
  | step t =>
    show (x.step t).capped = s.track.step t
    rw [capped_step x hd, hx]
  | setLayer layer => exact hx
  | perform body count =>
    have hbody : ∀ t ∈ body, ∀ a ∈ t.times, 0 ≤ a.toInt := fun t ht a ha =>
      hd a (List.mem_flatMap.mpr ⟨t, ht, ha⟩)
    have htemplate : (empty.run body).timeline.capped = (Effect.empty.run body).track.timeline :=
      congrArg Track.timeline (capped_effect hbody)
    show Track.mk x.pose (x.timeline.play (empty.run body).timeline count).capped =
      { s.track with timeline := s.track.timeline.play (Effect.empty.run body).track.timeline count }
    rw [capped_play, htemplate, ← hx]
    rfl

theorem capped_followAll (x : ExactTrack) {s : Sprite} (hx : x.capped = s.track)
    {ds : List Direction} (hds : ∀ d ∈ ds, ∀ a ∈ d.times, 0 ≤ a.toInt) :
    (x.followAll ds).capped = (s.run (ds.map Direction.edit)).track := by
  induction ds generalizing x s with
  | nil => exact hx
  | cons d rest ih =>
    have hfirst := capped_follow x hx (hds d List.mem_cons_self)
    exact ih (x.follow d) hfirst fun e he => hds e (List.mem_cons_of_mem d he)

theorem capped_ofPlacement {p : Placement} (h : 0 ≤ p.startMs.toInt) :
    (ofPlacement p).capped = p.build.track := by
  show Track.mk (.placedAt p.x p.y)
    { ms := .cap p.startMs.toInt.toNat, scope := .top, chain := #[p.header] } = _
  rw [Ms.cap_toNat h]
  rfl

end ExactTrack

/-! ### The theorem -/

/-- The time is that of the natural number, or the last time if there is none. -/
structure Ms.Caps (a : Ms) (n : Nat) : Prop where
  eq_min : a.toInt = min n 0x7fffffffffffffff
  eq_of_fits : n ≤ 0x7fffffffffffffff → a.toInt = n
  nonneg : 0 ≤ a.toInt

/-- The records differ in their times alone, and the one has the capped times of the other. -/
inductive Record.Caps : Record → ExactRecord → Prop
  | header (layer : Layer) (origin : Origin) (image : String) (x y : Binary64) :
      Caps (.header layer origin image x y) (.header layer origin image x y)
  | command (scope : Scope) (o : Opcode) (c : Easing) (ps : List Param) {start finish : Ms}
      {m n : Nat} (hstart : start.Caps m) (hfinish : finish.Caps n) :
      Caps (.command scope o c start finish ps) (.command scope o c m n ps)
  | marker (count : UInt32) {start : Ms} {n : Nat} (hstart : start.Caps n) :
      Caps (.marker start count) (.marker n count)

/-- The track has the brackets open that the exact one has open, and its times capped. -/
structure Track.Caps (t : Track) (x : ExactTrack) : Prop where
  ms : t.timeline.ms.Caps x.timeline.ms
  loop_isOpen : t.timeline.loop.isOpen = x.timeline.looping
  loop_count : t.timeline.loop.count = x.timeline.rounds
  loop_duration : t.timeline.loop.duration.Caps x.timeline.loopDuration
  batch_isOpen : t.timeline.batch.isOpen = x.timeline.batching
  batch_duration : t.timeline.batch.duration.Caps x.timeline.batchDuration
  records : List.Forall₂ Record.Caps t.records x.timeline.records

theorem Ms.caps_cap (n : Nat) : (cap n).Caps n := by
  have hcap := toInt_cap n
  refine ⟨hcap, fun hn => ?_, ?_⟩
  · rw [hcap, Nat.min_eq_left hn]
  · omega

theorem ExactRecord.caps_capped (r : ExactRecord) : r.capped.Caps r := by
  cases r with
  | header layer origin image x y => exact .header layer origin image x y
  | command scope o c start finish ps =>
    exact .command scope o c ps (Ms.caps_cap start) (Ms.caps_cap finish)
  | marker start count => exact .marker count (Ms.caps_cap start)

theorem ExactTrack.caps_capped (x : ExactTrack) : x.capped.Caps x where
  ms := Ms.caps_cap _
  loop_isOpen := rfl
  loop_count := rfl
  loop_duration := Ms.caps_cap _
  batch_isOpen := rfl
  batch_duration := Ms.caps_cap _
  records := by
    show List.Forall₂ Record.Caps (x.timeline.records.map ExactRecord.capped) _
    rw [List.forall₂_map_left_iff, List.forall₂_same]
    exact fun r _ => r.caps_capped

/-- **Without negative times, saturation is a clamp at the end.**  Let a sprite that does
not start before zero carry out edits in any order, let effects be built in the same way, and
let no call mention a negative time.  Then every count and every time in a record is what it
is in a run over unbounded natural numbers, or the last time where that is out of range, no
matter what was capped before.  The same holds of the effects. -/
theorem saturation_is_a_clamp {p : Placement} (hstart : 0 ≤ p.startMs.toInt)
    {ds : List Direction} (hds : ∀ d ∈ ds, ∀ a ∈ d.times, 0 ≤ a.toInt) {body : List Step}
    (hbody : ∀ s ∈ body, ∀ a ∈ s.times, 0 ≤ a.toInt) :
    (p.build.run (ds.map Direction.edit)).track.Caps ((ExactTrack.ofPlacement p).followAll ds) ∧
      (Effect.empty.run body).track.Caps (ExactTrack.empty.run body) := by
  constructor
  · have hrun := ExactTrack.capped_followAll _ (ExactTrack.capped_ofPlacement hstart) hds
    rw [← hrun]
    exact ExactTrack.caps_capped _
  · rw [← ExactTrack.capped_effect hbody]
    exact ExactTrack.caps_capped _

/-- A loop gets longer than time and is then left out, a batch crosses its end, and an effect
that is longer than time is played not at all and then twice. -/
theorem saturation_is_a_clamp_past_the_end :
    let forever : Ms := .clamp 0x7fffffffffffffff
    let body : List Step := [.act (.sleep forever), .act (.sleep (.clamp 5))]
    let fade : Direction := .step (.act (.animate .fadeIn (.clamp 20) .linear))
    let ds : List Direction :=
      [.step (.act (.bracket (.startLoop 0))), .step (.act (.sleep forever)),
        .step (.act (.sleep forever)), .step (.act (.bracket .startBatch)),
        .step (.act (.bracket .endLoop)), fade, .step (.act (.bracket .endBatch)),
        .perform body 0, fade, .perform body 2, fade]
    let s := ({ image := "a.png", startMs := .clamp 100 } : Placement).build.run
      (ds.map Direction.edit)
    s.track.timeline.loop.duration = forever ∧ s.track.timeline.ms = forever ∧
      (s.records.contains (.command .top .fade .linear (.clamp 120) (.clamp 140)
        [.number (.ofNat 1), .number (.ofNat 1)])) = true ∧
      ∃ x : ExactTrack, x.timeline.loopDuration = 2 * 0x7fffffffffffffff ∧
        x.timeline.ms = 140 + 2 * (0x7fffffffffffffff + 5) + 20 ∧ s.track.Caps x := by
  intro forever body fade ds s
  have hds : ∀ d ∈ ds, ∀ a ∈ d.times, 0 ≤ a.toInt := by decide
  have hbody : ∀ t ∈ body, ∀ a ∈ t.times, 0 ≤ a.toInt := by decide
  have hcaps := saturation_is_a_clamp (p := { image := "a.png", startMs := .clamp 100 })
    (by decide) hds hbody
  exact ⟨by decide, by decide, by decide +kernel, _, by decide, by decide, hcaps.1⟩

end Storyboard
