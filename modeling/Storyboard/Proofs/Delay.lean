/-
Storyboard/Proofs/Delay.lean

A sprite that starts later writes its absolute times later, and nothing else changes.

A timeline counts absolutely in `ms` alone.  Loops, batches and effects have lengths, and
a length is the same whenever it begins.  So the two runs differ in `ms` by the delay
(`Timeline.Later`), and what a call makes of `ms` differs by as much, provided that no sum
meets the end of the range.  `Sprite.results` lists the exact sums and products that a call
works out, and a run is unsaturated if all of them are times.

A record does not tell whether its times are absolute: a marker may be the sprite's own or
one that an effect holds, and both look alike.  The ledger of a run therefore keeps with
each record where it comes from (`Provenance`), as the calls and the loop decide it, and
`Record.Later` says what the delay does to a record from there.

Main result: `later_start_moves_absolute_times`.
-/
import Mathlib.Data.List.Forall2
import Storyboard.Proofs.Chain
import Storyboard.Proofs.Score

namespace Storyboard

/-! ### Sums and products -/

namespace Timeline

/-- The exact sums and products that a bracket works out. -/
def bracketResults (t : Timeline) : Bracket → List Int
  | .startLoop _ => []
  | .endLoop =>
    if t.loop.isOpen then
      [t.loop.count.toNat * t.loop.duration.toInt,
        t.ms.toInt + t.loop.count.toNat * t.loop.duration.toInt]
    else []
  | .startBatch => []
  | .endBatch => if t.batch.isOpen then [t.cursor.toInt + t.batch.duration.toInt] else []

/-- The exact sums and products that a step works out.  A command ends where it moves the
cursor, if no batch keeps the cursor in its place. -/
def stepResults (t : Timeline) : Step → List Int
  | .command _ _ d _ => [t.cursor.toInt + d.toInt]
  | .act (.animate _ d _) => [t.cursor.toInt + d.toInt]
  | .act (.bracket b) => t.bracketResults b
  | .act (.sleep d) => if t.batch.isOpen then [] else [t.cursor.toInt + d.toInt]
  | .act (.setTime _) => []
  | .act (.assign _) => []

end Timeline

namespace Sprite

/-- The exact sums and products that an edit works out. -/
def results (s : Sprite) : Edit → List Int
  | .step t => s.track.timeline.stepResults t
  | .setLayer _ => []
  | .applyEffect e count =>
    [count.toNat * e.length.toInt, s.track.timeline.ms.toInt + count.toNat * e.length.toInt]

/-- All sums and products of a run are times. -/
def Unsaturated (s : Sprite) : List Edit → Prop
  | [] => True
  | e :: rest => (∀ i ∈ s.results e, Fits i) ∧ (s.edit e).Unsaturated rest

instance : (s : Sprite) → (edits : List Edit) → Decidable (s.Unsaturated edits)
  | _, [] => .isTrue trivial
  | s, e :: rest =>
    have : Decidable ((s.edit e).Unsaturated rest) := instDecidableUnsaturated _ _
    inferInstanceAs (Decidable (_ ∧ _))

end Sprite

/-! ### Where records come from -/

/-- Where a record of a sprite comes from. -/
inductive Provenance where
  /-- The declaration of the sprite. -/
  | header
  /-- A command that was recorded with no loop open. -/
  | outsideLoops
  /-- A command that was recorded with a loop open. -/
  | insideLoop
  /-- The marker that opening a loop or playing an effect wrote. -/
  | ownMarker
  /-- A record of an effect that was played. -/
  | copied
  deriving DecidableEq

namespace Sprite

/-- The records that an edit appends, each with where it comes from. -/
def entries (s : Sprite) : Edit → List (Provenance × Record)
  | .step (.act (.bracket b)) => (s.track.timeline.opened b).map fun r => (.ownMarker, r)
  | .step t => (s.track.written t).map fun r =>
    (if s.track.timeline.loop.isOpen then .insideLoop else .outsideLoops, r)
  | .setLayer _ => []
  | .applyEffect e count =>
    (.ownMarker, .marker s.track.timeline.ms count) :: e.records.map fun r => (.copied, r)

/-- The records that edits append, each with where it comes from. -/
def ledger (s : Sprite) : List Edit → List (Provenance × Record)
  | [] => []
  | e :: rest => s.entries e ++ (s.edit e).ledger rest

/-- The entries of an edit are the records that it appends. -/
theorem map_snd_entries (s : Sprite) (e : Edit) : (s.entries e).map Prod.snd = s.written e := by
  have hfrom (source : Provenance) (rs : List Record) :
      (rs.map fun r => (source, r)).map Prod.snd = rs :=
    List.map_map.trans (List.map_id rs)
  cases e with
  | step t =>
    cases t with
    | command o c d ps => rfl
    | act a =>
      cases a with
      | bracket b => exact hfrom .ownMarker _
      | animate a d c => rfl
      | sleep d => rfl
      | setTime ms => rfl
      | assign s => rfl
  | setLayer layer => rfl
  | applyEffect e count => exact congrArg (_ :: ·) (hfrom .copied e.records)

theorem records_ledger (s : Sprite) (edits : List Edit) :
    (s.run edits).records = s.records ++ (s.ledger edits).map Prod.snd := by
  induction edits generalizing s with
  | nil => exact (List.append_nil _).symm
  | cons e rest ih =>
    show ((s.edit e).run rest).records = _
    rw [ih, records_edit, ledger, List.map_append, map_snd_entries, List.append_assoc]

end Sprite

/-- The records of a sprite that is built and edited, each with where it comes from. -/
def Placement.ledger (p : Placement) (edits : List Edit) : List (Provenance × Record) :=
  (.header, p.header) :: p.build.ledger edits

/-! ### Later by a delay -/

/-- What a delay does to a record: absolute times are later by as much, and all else is
the same. -/
inductive Record.Later (delay : Int) : Provenance → Record → Record → Prop
  | header (r : Record) : Later delay .header r r
  | outsideLoops (scope : Scope) (o : Opcode) (c : Easing) (ps : List Param)
      {start finish start' finish' : Ms} (hstart : start'.toInt = start.toInt + delay)
      (hfinish : finish'.toInt = finish.toInt + delay) :
      Later delay .outsideLoops (.command scope o c start finish ps)
        (.command scope o c start' finish' ps)
  | insideLoop (r : Record) : Later delay .insideLoop r r
  | ownMarker (count : UInt32) {start start' : Ms} (hstart : start'.toInt = start.toInt + delay) :
      Later delay .ownMarker (.marker start count) (.marker start' count)
  | copied (r : Record) : Later delay .copied r r

/-- The records have one provenance and differ as the delay makes them differ. -/
def Record.LaterEntry (delay : Int) (a b : Provenance × Record) : Prop :=
  a.1 = b.1 ∧ Later delay a.1 a.2 b.2

/-- What a delay does to a timeline: `ms` is later by as much. -/
structure Timeline.Later (delay : Int) (t u : Timeline) : Prop where
  ms : u.ms.toInt = t.ms.toInt + delay
  scope : u.scope = t.scope
  loop : u.loop = t.loop
  batch : u.batch = t.batch

/-- What a delay does to a sprite, its records apart. -/
structure Sprite.Later (delay : Int) (s r : Sprite) : Prop where
  image : r.image = s.image
  origin : r.origin = s.origin
  layer : r.layer = s.layer
  pose : r.track.pose = s.track.pose
  timeline : Timeline.Later delay s.track.timeline r.track.timeline

/-- Where neither sum leaves the range, a sum keeps the delay of its first term. -/
theorem Ms.toInt_add_later {a b d : Ms} {delay : Int} (h : b.toInt = a.toInt + delay)
    (ha : Fits (a.toInt + d.toInt)) (hb : Fits (b.toInt + d.toInt)) :
    (b + d).toInt = (a + d).toInt + delay := by
  rw [toInt_add_of_fits ha, toInt_add_of_fits hb, h]
  omega

namespace Timeline.Later

variable {delay : Int} {t u : Timeline}

theorem cursor_of_open (h : Later delay t u) (hopen : t.loop.isOpen = true) :
    u.cursor = t.cursor := by
  rw [Timeline.cursor, Timeline.cursor, h.loop, if_pos hopen, if_pos hopen]

theorem cursor_of_closed (h : Later delay t u) (hclosed : t.loop.isOpen = false) :
    u.cursor.toInt = t.cursor.toInt + delay := by
  have hclosed' : u.loop.isOpen = false := by rw [h.loop, hclosed]
  rw [Timeline.cursor_of_closed hclosed, Timeline.cursor_of_closed hclosed', h.ms]

theorem cursorScope (h : Later delay t u) : u.cursorScope = t.cursorScope := by
  rw [Timeline.cursorScope, Timeline.cursorScope, h.loop, h.scope]

theorem push (h : Later delay t u) (r r' : Record) : Later delay (t.push r) (u.push r') :=
  ⟨h.ms, h.scope, h.loop, h.batch⟩

theorem shift (h : Later delay t u) {d : Ms} (ht : Fits (t.cursor.toInt + d.toInt))
    (hu : Fits (u.cursor.toInt + d.toInt)) : Later delay (t.shift d) (u.shift d) := by
  rcases hopen : t.loop.isOpen with - | -
  · have hopen' : u.loop.isOpen = false := by rw [h.loop, hopen]
    rw [Timeline.cursor_of_closed hopen] at ht
    rw [Timeline.cursor_of_closed hopen'] at hu
    rw [shift_of_closed hopen, shift_of_closed hopen']
    exact ⟨Ms.toInt_add_later h.ms ht hu, h.scope, h.loop, h.batch⟩
  · have hopen' : u.loop.isOpen = true := by rw [h.loop, hopen]
    rw [shift_of_open hopen, shift_of_open hopen', h.loop]
    exact ⟨h.ms, h.scope, rfl, h.batch⟩

/-- Only without a batch does time that passes move the cursor. -/
theorem elapse (h : Later delay t u) {d : Ms}
    (ht : t.batch.isOpen = false → Fits (t.cursor.toInt + d.toInt))
    (hu : u.batch.isOpen = false → Fits (u.cursor.toInt + d.toInt)) :
    Later delay (t.elapse d) (u.elapse d) := by
  rcases hopen : t.batch.isOpen with - | -
  · have hopen' : u.batch.isOpen = false := by rw [h.batch, hopen]
    rw [elapse_of_closed hopen, elapse_of_closed hopen']
    exact h.shift (ht hopen) (hu hopen')
  · have hopen' : u.batch.isOpen = true := by rw [h.batch, hopen]
    rw [elapse_of_open hopen, elapse_of_open hopen', h.batch]
    exact ⟨h.ms, h.scope, h.loop, rfl⟩

theorem command (h : Later delay t u) (o : Opcode) (e : Easing) {d : Ms} (ps : List Param)
    (ht : Fits (t.cursor.toInt + d.toInt)) (hu : Fits (u.cursor.toInt + d.toInt)) :
    Later delay (t.command o e d ps) (u.command o e d ps) :=
  (h.push _ _).elapse (fun _ => ht) (fun _ => hu)

/-- All rounds take the same time, from the one `ms` or the other. -/
theorem endLoop (h : Later delay t u)
    (hproduct : Fits (t.loop.count.toNat * t.loop.duration.toInt))
    (ht : Fits (t.ms.toInt + t.loop.count.toNat * t.loop.duration.toInt))
    (hu : Fits (u.ms.toInt + t.loop.count.toNat * t.loop.duration.toInt)) :
    Later delay t.endLoop u.endLoop := by
  rw [← Ms.toInt_repeated_of_fits hproduct] at ht hu
  rw [Timeline.endLoop, Timeline.endLoop, h.loop]
  exact ⟨Ms.toInt_add_later h.ms ht hu, h.scope, rfl, h.batch⟩

theorem endBatch (h : Later delay t u) (ht : Fits (t.cursor.toInt + t.batch.duration.toInt))
    (hu : Fits (u.cursor.toInt + t.batch.duration.toInt)) :
    Later delay t.endBatch u.endBatch := by
  have hclosed : Later delay { t with batch := { t.batch with isOpen := false } }
      { u with batch := { t.batch with isOpen := false } } := ⟨h.ms, h.scope, h.loop, rfl⟩
  rw [Timeline.endBatch, Timeline.endBatch, h.batch]
  exact hclosed.shift ht hu

theorem bracket (h : Later delay t u) (b : Bracket) (ht : ∀ i ∈ t.bracketResults b, Fits i)
    (hu : ∀ i ∈ u.bracketResults b, Fits i) : Later delay (t.bracket b) (u.bracket b) := by
  have hsame : u.ignores b = t.ignores b := by cases b <;> simp [ignores, h.loop, h.batch]
  rcases hignored : t.ignores b with - | -
  · have hignored' := hsame.trans hignored
    cases b with
    | startLoop count =>
      rw [bracket_startLoop (t := t) hignored, bracket_startLoop (t := u) hignored']
      exact ⟨h.ms, h.scope, rfl, h.batch⟩
    | startBatch =>
      rw [bracket_startBatch (t := t) hignored, bracket_startBatch (t := u) hignored']
      exact ⟨h.ms, h.scope, h.loop, rfl⟩
    | endLoop =>
      have hopen : t.loop.isOpen = true := by simpa [ignores] using hignored
      have hopen' : u.loop.isOpen = true := by rw [h.loop, hopen]
      rw [bracketResults, if_pos hopen, List.forall_mem_cons, List.forall_mem_singleton] at ht
      rw [bracketResults, if_pos hopen', h.loop, List.forall_mem_cons,
        List.forall_mem_singleton] at hu
      rw [bracket_endLoop hopen, bracket_endLoop hopen']
      exact h.endLoop ht.1 ht.2 hu.2
    | endBatch =>
      have hopen : t.batch.isOpen = true := by simpa [ignores] using hignored
      have hopen' : u.batch.isOpen = true := by rw [h.batch, hopen]
      rw [bracketResults, if_pos hopen, List.forall_mem_singleton] at ht
      rw [bracketResults, if_pos hopen', h.batch, List.forall_mem_singleton] at hu
      rw [bracket_endBatch hopen, bracket_endBatch hopen']
      exact h.endBatch ht hu
  · rw [bracket_of_ignores hignored, bracket_of_ignores (hsame.trans hignored)]
    exact h

theorem play (h : Later delay t u) (template : Timeline) {count : UInt32}
    (hproduct : Fits (count.toNat * template.ms.toInt))
    (ht : Fits (t.ms.toInt + count.toNat * template.ms.toInt))
    (hu : Fits (u.ms.toInt + count.toNat * template.ms.toInt)) :
    Later delay (t.play template count) (u.play template count) := by
  rw [← Ms.toInt_repeated_of_fits hproduct] at ht hu
  exact ⟨Ms.toInt_add_later h.ms ht hu, h.scope, h.loop, h.batch⟩

end Timeline.Later

/-! ### One edit -/

namespace Sprite.Later

variable {delay : Int} {s r : Sprite}

/-- A step that does not jump keeps the delay. -/
theorem step (h : Sprite.Later delay s r) {t : Step} (hjump : ∀ ms, t ≠ .act (.setTime ms))
    (hs : ∀ i ∈ s.track.timeline.stepResults t, Fits i)
    (hr : ∀ i ∈ r.track.timeline.stepResults t, Fits i) :
    Sprite.Later delay (s.step t) (r.step t) := by
  cases t with
  | command o c d ps =>
    refine ⟨h.image, h.origin, h.layer, h.pose, ?_⟩
    exact h.timeline.command o c ps (hs _ List.mem_cons_self) (hr _ List.mem_cons_self)
  | act a =>
    cases a with
    | animate a d c =>
      refine ⟨h.image, h.origin, h.layer, congrArg a.finish h.pose, ?_⟩
      show Timeline.Later delay (s.track.timeline.command a.opcode c d (a.params s.track.pose))
        (r.track.timeline.command a.opcode c d (a.params r.track.pose))
      rw [h.pose]
      exact h.timeline.command _ c _ (hs _ List.mem_cons_self) (hr _ List.mem_cons_self)
    | bracket b =>
      exact ⟨h.image, h.origin, h.layer, h.pose, h.timeline.bracket b hs hr⟩
    | sleep d =>
      refine ⟨h.image, h.origin, h.layer, h.pose, h.timeline.elapse ?_ ?_⟩
      · intro hclosed
        refine hs _ ?_
        rw [Timeline.stepResults, hclosed]
        exact List.mem_cons_self
      · intro hclosed
        refine hr _ ?_
        rw [Timeline.stepResults, hclosed]
        exact List.mem_cons_self
    | setTime ms => exact absurd rfl (hjump ms)
    | assign setting =>
      exact ⟨h.image, h.origin, h.layer, congrArg (Pose.set · setting) h.pose, h.timeline⟩

/-- An edit that does not jump keeps the delay. -/
theorem edit (h : Sprite.Later delay s r) {e : Edit}
    (hjump : ∀ ms, e ≠ .step (.act (.setTime ms)))
    (hs : ∀ i ∈ s.results e, Fits i) (hr : ∀ i ∈ r.results e, Fits i) :
    Sprite.Later delay (s.edit e) (r.edit e) := by
  cases e with
  | step t => exact h.step (fun ms ht => hjump ms (congrArg Edit.step ht)) hs hr
  | setLayer layer => exact ⟨h.image, h.origin, rfl, h.pose, h.timeline⟩
  | applyEffect e count =>
    rw [results, List.forall_mem_cons, List.forall_mem_singleton] at hs hr
    exact ⟨h.image, h.origin, h.layer, h.pose, h.timeline.play _ hs.1 hs.2 hr.2⟩

/-- A command is later if no loop is open, and otherwise the same. -/
theorem command (h : Sprite.Later delay s r) (o : Opcode) (c : Easing) {d : Ms}
    (ps : List Param) (hs : Fits (s.track.timeline.cursor.toInt + d.toInt))
    (hr : Fits (r.track.timeline.cursor.toInt + d.toInt)) :
    Record.LaterEntry delay
      (if s.track.timeline.loop.isOpen then .insideLoop else .outsideLoops,
        s.track.timeline.nextCommand o c d ps)
      (if r.track.timeline.loop.isOpen then .insideLoop else .outsideLoops,
        r.track.timeline.nextCommand o c d ps) := by
  refine ⟨by rw [h.timeline.loop], ?_⟩
  rw [Timeline.nextCommand, Timeline.nextCommand, h.timeline.cursorScope]
  rcases hopen : s.track.timeline.loop.isOpen with - | -
  · have hcursor := h.timeline.cursor_of_closed hopen
    exact .outsideLoops _ o c ps hcursor (Ms.toInt_add_later hcursor hs hr)
  · rw [h.timeline.cursor_of_open hopen]
    exact .insideLoop _

/-- What an edit writes, with where it comes from. -/
theorem entries (h : Sprite.Later delay s r) {e : Edit} (hs : ∀ i ∈ s.results e, Fits i)
    (hr : ∀ i ∈ r.results e, Fits i) :
    List.Forall₂ (Record.LaterEntry delay) (s.entries e) (r.entries e) := by
  have hmarker (count : UInt32) : Record.LaterEntry delay
      (.ownMarker, .marker s.track.timeline.ms count)
      (.ownMarker, .marker r.track.timeline.ms count) := ⟨rfl, .ownMarker count h.timeline.ms⟩
  cases e with
  | step t =>
    cases t with
    | command o c d ps =>
      exact .cons (h.command o c ps (hs _ List.mem_cons_self) (hr _ List.mem_cons_self)) .nil
    | act a =>
      cases a with
      | animate a d c =>
        have hentry := h.command a.opcode c (a.params s.track.pose)
          (hs _ List.mem_cons_self) (hr _ List.mem_cons_self)
        refine .cons ?_ .nil
        rw [h.pose]
        exact hentry
      | bracket b =>
        cases b with
        | startLoop count =>
          simp only [Sprite.entries, Timeline.opened, h.timeline.loop]
          split
          · exact .nil
          · exact .cons (hmarker count) .nil
        | endLoop => exact .nil
        | startBatch => exact .nil
        | endBatch => exact .nil
      | sleep d => exact .nil
      | setTime ms => exact .nil
      | assign setting => exact .nil
  | setLayer layer => exact .nil
  | applyEffect e count =>
    refine .cons (hmarker count) ?_
    rw [List.forall₂_map_left_iff, List.forall₂_map_right_iff, List.forall₂_same]
    exact fun r _ => ⟨rfl, .copied r⟩

/-! ### Runs -/

/-- Edits without a jump keep the delay and write their absolute times later by it. -/
theorem run (h : Sprite.Later delay s r) {edits : List Edit}
    (hjumps : ∀ ms, Edit.step (.act (.setTime ms)) ∉ edits) (hs : s.Unsaturated edits)
    (hr : r.Unsaturated edits) :
    Sprite.Later delay (s.run edits) (r.run edits) ∧
      List.Forall₂ (Record.LaterEntry delay) (s.ledger edits) (r.ledger edits) := by
  induction edits generalizing s r with
  | nil => exact ⟨h, .nil⟩
  | cons e rest ih =>
    have hjump : ∀ ms, e ≠ .step (.act (.setTime ms)) :=
      fun ms he => hjumps ms (he ▸ List.mem_cons_self)
    obtain ⟨hend, hrest⟩ := ih (h.edit hjump hs.1 hr.1)
      (fun ms hmem => hjumps ms (List.mem_cons_of_mem e hmem)) hs.2 hr.2
    exact ⟨hend, List.rel_append (h.entries hs.1 hr.1) hrest⟩

end Sprite.Later

/-! ### The theorem -/

/-- **A later start moves absolute times.**  Let a sprite carry out edits of which none jumps
in time, and carry out the same ones from a start that is later by some delay (or earlier,
if it is negative), and let neither run saturate.  Then `ms` ends later by the delay, and loop,
batch, pose and all else are the same.  Of the records, one after the other, the commands
that were recorded outside loops and the sprite's own markers are later by the delay; its
header, the commands inside its loops and all that it copied from effects are the same. -/
theorem later_start_moves_absolute_times {p : Placement} {start : Ms} {delay : Int}
    (hstart : start.toInt = p.startMs.toInt + delay) {edits : List Edit}
    (hjumps : ∀ ms, Edit.step (.act (.setTime ms)) ∉ edits)
    (hs : p.build.Unsaturated edits)
    (hr : ({ p with startMs := start } : Placement).build.Unsaturated edits) :
    let q : Placement := { p with startMs := start }
    Sprite.Later delay (p.build.run edits) (q.build.run edits) ∧
    (p.build.run edits).records = (p.ledger edits).map Prod.snd ∧
    (q.build.run edits).records = (q.ledger edits).map Prod.snd ∧
    List.Forall₂ (Record.LaterEntry delay) (p.ledger edits) (q.ledger edits) := by
  intro q
  have hbuilt : Sprite.Later delay p.build q.build :=
    ⟨rfl, rfl, rfl, rfl, hstart, rfl, rfl, rfl⟩
  obtain ⟨hend, hledger⟩ := hbuilt.run hjumps hs hr
  exact ⟨hend, Sprite.records_ledger p.build edits, Sprite.records_ledger q.build edits,
    .cons ⟨rfl, .header p.header⟩ hledger⟩

/-- A sprite that starts 1000 later plays an effect with a loop of its own inside a loop that a
batch crosses: the marker of the effect's loop and the fade inside the loop stay where they
are. -/
theorem later_start_moves_absolute_times_of_crossing_brackets :
    let fx := (Effect.empty.step (.act (.bracket (.startLoop 2)))).step (.act (.sleep (.clamp 5)))
    let fade (d : Int) : Edit := .step (.act (.animate .fadeIn (.clamp d) .linear))
    let edits : List Edit :=
      [fade 20, .step (.act (.bracket .startBatch)), .step (.act (.bracket (.startLoop 3))),
        fade 7, .step (.act (.bracket .endBatch)), .applyEffect fx 2,
        .step (.act (.bracket .endLoop)), fade 10]
    let p : Placement := { image := "a.png", startMs := .clamp (-5) }
    let q : Placement := { image := "a.png", startMs := .clamp 995 }
    (p.build.run edits).track.timeline.ms.toInt = 46 ∧
      (q.build.run edits).track.timeline.ms.toInt = 1046 ∧
      (p.ledger edits).map Prod.fst =
        [.header, .outsideLoops, .ownMarker, .insideLoop, .ownMarker, .copied, .outsideLoops] ∧
      List.Forall₂ (Record.LaterEntry 1000) (p.ledger edits) (q.ledger edits) := by
  intro fx fade edits p q
  have hjumps : ∀ ms, Edit.step (.act (.setTime ms)) ∉ edits := by
    intro ms
    simp [edits, fade]
  have hs : p.build.Unsaturated edits := by decide
  have hr : q.build.Unsaturated edits := by decide
  have hstart : q.startMs.toInt = p.startMs.toInt + 1000 := rfl
  have hdelayed := later_start_moves_absolute_times hstart hjumps hs hr
  exact ⟨by decide, by decide, by decide, hdelayed.2.2.2⟩

end Storyboard
