/-
Storyboard/Proofs/Replay.lean

Playing an effect is writing its calls inside a loop.

The two go different ways.  An effect counts from zero on its own `ms`, in the
scope that it was created with; calls inside a sprite's loop move the loop's
count, in the scope that the open loop gives them.  `Mirrors` relates the two
timelines call by call: what is `ms` there is the loop's count here, open
batches are equally long, and the records are the same after those that the
sprite had.  It survives every call that leaves loops alone, whatever is left
open and wherever a count gets stuck at the end of its range, since both
timelines then do the same sum on the same number.

Main result: `applyEffect_eq_loop`.
-/
import Storyboard.Sprite

namespace Storyboard

/-- A call that neither opens or closes a loop nor jumps in time. -/
inductive Step.InLoop : Step → Prop
  | command (o : Opcode) (e : Easing) (d : Ms) (ps : List Param) : InLoop (.command o e d ps)
  | animate (a : Animation) (d : Ms) (e : Easing) : InLoop (.act (.animate a d e))
  | sleep (d : Ms) : InLoop (.act (.sleep d))
  | startBatch : InLoop (.act (.bracket .startBatch))
  | endBatch : InLoop (.act (.bracket .endBatch))
  | assign (s : Setting) : InLoop (.act (.assign s))

/-! ### Timelines -/

/-- The effect's timeline `e` and the sprite's timeline `t`, which has a loop of `count`
rounds open since `ms`, before which it had the records `before`. -/
structure Mirrors (count : UInt32) (ms : Ms) (before : List Record) (e t : Timeline) : Prop where
  scope : e.scope = .loop
  loop_closed : e.loop.isOpen = false
  loop_open : t.loop.isOpen = true
  loop_count : t.loop.count = count
  ms : t.ms = ms
  time : t.loop.duration = e.ms
  batch_isOpen : t.batch.isOpen = e.batch.isOpen
  batch_duration : e.batch.isOpen = true → t.batch.duration = e.batch.duration
  records : t.records = before ++ e.records

namespace Mirrors

variable {count : UInt32} {ms : Ms} {before : List Record} {e t : Timeline}

theorem cursor (h : Mirrors count ms before e t) : t.cursor = e.cursor := by
  rw [Timeline.cursor_of_open h.loop_open, Timeline.cursor_of_closed h.loop_closed, h.time]

theorem cursorScope (h : Mirrors count ms before e t) : t.cursorScope = e.cursorScope := by
  simp [Timeline.cursorScope, h.loop_open, h.loop_closed, h.scope]

theorem shift (h : Mirrors count ms before e t) (d : Ms) :
    Mirrors count ms before (e.shift d) (t.shift d) := by
  rw [Timeline.shift_of_closed h.loop_closed, Timeline.shift_of_open h.loop_open]
  refine { h with time := ?_ }
  show t.loop.duration + d = e.ms + d
  rw [h.time]

theorem elapse (h : Mirrors count ms before e t) (d : Ms) :
    Mirrors count ms before (e.elapse d) (t.elapse d) := by
  rcases hb : e.batch.isOpen with - | -
  · rw [Timeline.elapse_of_closed hb, Timeline.elapse_of_closed (h.batch_isOpen.trans hb)]
    exact h.shift d
  · rw [Timeline.elapse_of_open hb, Timeline.elapse_of_open (h.batch_isOpen.trans hb)]
    refine { h with batch_duration := fun _ => ?_ }
    show max t.batch.duration d = max e.batch.duration d
    rw [h.batch_duration hb]

theorem push (h : Mirrors count ms before e t) (r : Record) :
    Mirrors count ms before (e.push r) (t.push r) := by
  refine { h with records := ?_ }
  rw [Timeline.records_push, Timeline.records_push, h.records, List.append_assoc]

theorem command (h : Mirrors count ms before e t) (o : Opcode) (c : Easing) (d : Ms)
    (ps : List Param) : Mirrors count ms before (e.command o c d ps) (t.command o c d ps) := by
  rw [Timeline.command, Timeline.command, h.cursor, h.cursorScope]
  exact (h.push _).elapse d

theorem startBatch (h : Mirrors count ms before e t) :
    Mirrors count ms before (e.bracket .startBatch) (t.bracket .startBatch) := by
  rcases hb : e.batch.isOpen with - | -
  · rw [Timeline.bracket_startBatch hb, Timeline.bracket_startBatch (h.batch_isOpen.trans hb)]
    exact { h with batch_isOpen := rfl, batch_duration := fun _ => rfl }
  · -- a batch is open on both sides, and both ignore the call
    have hignored : e.ignores .startBatch = true := hb
    have hignored' : t.ignores .startBatch = true := h.batch_isOpen.trans hb
    rw [Timeline.bracket_of_ignores hignored, Timeline.bracket_of_ignores hignored']
    exact h

theorem endBatch (h : Mirrors count ms before e t) :
    Mirrors count ms before (e.bracket .endBatch) (t.bracket .endBatch) := by
  rcases hb : e.batch.isOpen with - | -
  · have ht : t.batch.isOpen = false := h.batch_isOpen.trans hb
    have hignored : e.ignores .endBatch = true := by simp [Timeline.ignores, hb]
    have hignored' : t.ignores .endBatch = true := by simp [Timeline.ignores, ht]
    rw [Timeline.bracket_of_ignores hignored, Timeline.bracket_of_ignores hignored']
    exact h
  · rw [Timeline.bracket_endBatch hb, Timeline.bracket_endBatch (h.batch_isOpen.trans hb),
      Timeline.endBatch, Timeline.endBatch, h.batch_duration hb]
    -- both batches close, and then both cursors move by the same duration
    have hclosed : Mirrors count ms before
        { e with batch := { e.batch with isOpen := false } }
        { t with batch := { t.batch with isOpen := false } } :=
      { h with batch_isOpen := rfl, batch_duration := fun hopen => by cases hopen }
    exact hclosed.shift _

end Mirrors

/-! ### Tracks -/

namespace Track

variable {count : UInt32} {ms : Ms} {before : List Record} {e t : Track}

/-- One call keeps pose and timeline together. -/
theorem mirrors_step (hpose : t.pose = e.pose)
    (h : Mirrors count ms before e.timeline t.timeline) {s : Step} (hs : s.InLoop) :
    (t.step s).pose = (e.step s).pose ∧
      Mirrors count ms before (e.step s).timeline (t.step s).timeline := by
  cases hs with
  | command o c d ps => exact ⟨hpose, h.command o c d ps⟩
  | animate a d c =>
    refine ⟨congrArg a.finish hpose, ?_⟩
    show Mirrors _ _ _ (e.timeline.command a.opcode c d (a.params e.pose))
      (t.timeline.command a.opcode c d (a.params t.pose))
    rw [hpose]
    exact h.command _ c d _
  | sleep d => exact ⟨hpose, h.elapse d⟩
  | startBatch => exact ⟨hpose, h.startBatch⟩
  | endBatch => exact ⟨hpose, h.endBatch⟩
  | assign s => exact ⟨congrArg (Pose.set · s) hpose, h⟩

/-- And so do all calls of a body. -/
theorem mirrors_run (hpose : t.pose = e.pose)
    (h : Mirrors count ms before e.timeline t.timeline) {body : List Step}
    (hbody : ∀ s ∈ body, s.InLoop) :
    Mirrors count ms before (e.run body).timeline (t.run body).timeline := by
  induction body generalizing e t with
  | nil => exact h
  | cons s rest ih =>
    obtain ⟨hpose', h'⟩ := mirrors_step hpose h (hbody s List.mem_cons_self)
    exact ih hpose' h' fun r hr => hbody r (List.mem_cons_of_mem _ hr)

end Track

/-! ### Setting a pose channel by channel -/

namespace Pose

/-- The current values of all channels. -/
def settings (p : Pose) : List Setting :=
  [p.get .position, p.get .size, p.get .transparency, p.get .rotation, p.get .color]

theorem get_mem_settings (p : Pose) (c : Channel) : p.get c ∈ p.settings := by
  cases c <;> simp [settings]

theorem get_channel_of_mem_settings {p : Pose} {s : Setting} (h : s ∈ p.settings) :
    p.get s.channel = s := by
  simp only [settings, List.mem_cons, List.not_mem_nil, or_false] at h
  obtain rfl | rfl | rfl | rfl | rfl := h <;> rfl

/-- A pose is known by its channels. -/
theorem ext_get {p q : Pose} (h : ∀ c, p.get c = q.get c) : p = q := by
  obtain ⟨hx, hy⟩ := Setting.position.inj (h .position)
  have hsize := Setting.size.inj (h .size)
  have htransparency := Setting.transparency.inj (h .transparency)
  have hrotation := Setting.rotation.inj (h .rotation)
  have hcolor := Setting.color.inj (h .color)
  cases p
  cases q
  simp only at hx hy hsize htransparency hrotation hcolor
  rw [hx, hy, hsize, htransparency, hrotation, hcolor]

/-- A channel has its value in `q` after values of `q` are set, if it had it before or
is among them. -/
theorem get_foldl_set {p q : Pose} {settings : List Setting}
    (hq : ∀ s ∈ settings, q.get s.channel = s) {c : Channel}
    (hc : p.get c = q.get c ∨ q.get c ∈ settings) :
    (settings.foldl set p).get c = q.get c := by
  induction settings generalizing p with
  | nil =>
    rcases hc with hc | hc
    · exact hc
    · cases hc
  | cons s rest ih =>
    refine ih (fun r hr => hq r (List.mem_cons_of_mem _ hr)) ?_
    -- `s` sets this channel, or leaves it to the others
    by_cases hsc : s.channel = c
    · left
      rw [← hsc, get_set_self, hq s List.mem_cons_self]
    · rw [get_set_of_ne p hsc]
      rcases hc with hc | hc
      · exact .inl hc
      · rcases List.mem_cons.mp hc with hs | hrest
        · exact absurd (hs ▸ channel_get q c) hsc
        · exact .inr hrest

/-- Setting every channel of a pose, in any order, gives that pose. -/
theorem foldl_set_settings (p : Pose) {q : Pose} {settings : List Setting}
    (h : settings.Perm q.settings) : settings.foldl set p = q := by
  refine ext_get fun c => get_foldl_set ?_ (.inr (h.mem_iff.mpr (get_mem_settings q c)))
  intro s hs
  exact get_channel_of_mem_settings (h.mem_iff.mp hs)

end Pose

/-- The call that sets a channel. -/
def Setting.step (s : Setting) : Step := .act (.assign s)

/-- Setting channels touches the pose alone. -/
theorem Track.run_map_settingStep (t : Track) (settings : List Setting) :
    t.run (settings.map Setting.step) = { t with pose := settings.foldl Pose.set t.pose } := by
  induction settings generalizing t with
  | nil => rfl
  | cons s rest ih => exact ih (t.step s.step)

/-! ### The theorem -/

/-- **Playing an effect is writing its calls inside a loop.**  Set the pose of a new
effect to that of a sprite without an open bracket, in any order of the channels, and
let both carry out the same calls, the sprite inside a loop: whether or not the calls
balance their batches, and however far the times saturate, the sprite ends with the
records and the time that it has if it plays the effect instead. -/
theorem applyEffect_eq_loop {s : Sprite} (hloop : s.track.timeline.loop.isOpen = false)
    (hbatch : s.track.timeline.batch.isOpen = false) (count : UInt32)
    {settings : List Setting} (hsettings : settings.Perm s.track.pose.settings)
    {body : List Step} (hbody : ∀ t ∈ body, t.InLoop) :
    let fx := Effect.empty.run (settings.map Setting.step ++ body)
    let played := s.applyEffect fx count
    let looped := s.run (Sprite.inLoop count body)
    played.records = looped.records ∧
      played.track.timeline.ms = looped.track.timeline.ms := by
  intro fx played looped
  let posed : Track := ⟨s.track.pose, Effect.empty.track.timeline⟩
  let opened : Track := { s.track with timeline := s.track.timeline.startLoop count }
  let filled : Track := opened.run body
  -- the settings bring the template to the sprite's pose, and then the two start even
  have hfx : fx.track = posed.run body := by
    show Effect.empty.track.run (settings.map Setting.step ++ body) = _
    rw [Track.run_append, Track.run_map_settingStep, Pose.foldl_set_settings _ hsettings]
  have hstart : Mirrors count s.track.timeline.ms
      (s.records ++ [Record.marker s.track.timeline.ms count]) posed.timeline opened.timeline :=
    { scope := rfl
      loop_closed := rfl
      loop_open := rfl
      loop_count := rfl
      ms := rfl
      time := rfl
      batch_isOpen := hbatch
      batch_duration := fun h => by cases h
      records := (Timeline.records_push s.track.timeline _).trans (List.append_nil _).symm }
  have hend : Mirrors count s.track.timeline.ms
      (s.records ++ [Record.marker s.track.timeline.ms count]) fx.track.timeline
        filled.timeline := by
    rw [hfx]
    exact Track.mirrors_run (e := posed) (t := opened) rfl hstart hbody
  -- the sprite writes the body between the marker and the end of the loop
  have hlooped : looped = { s with track := { filled with timeline := filled.timeline.endLoop } } :=
    Sprite.run_inLoop hloop count rfl hend.loop_open
  rw [hlooped]
  refine ⟨?_, ?_⟩
  · show (s.track.timeline.play fx.track.timeline count).records = filled.timeline.records
    rw [Timeline.records_play, hend.records, List.append_assoc]
    rfl
  · show s.track.timeline.ms + Ms.repeated count fx.track.timeline.ms =
      filled.timeline.ms + Ms.repeated filled.timeline.loop.count filled.timeline.loop.duration
    rw [hend.ms, hend.loop_count, hend.time]

/-- A body that waits backwards, moves, and leaves a batch open at the end of time. -/
theorem applyEffect_eq_loop_of_open_batch :
    let s := ({ image := "a.png", startMs := .clamp 7 } : Placement).build
    let body : List Step :=
      [.act (.sleep (.clamp (-30))),
        .act (.animate (.towards (.position (.ofNat 1) (.ofNat 2))) (.clamp 50) .linear),
        .act (.sleep (.clamp 0x7fffffffffffffff)), .act (.bracket .startBatch),
        .act (.animate .fadeIn (.clamp 20) .easeOut)]
    let fx := Effect.empty.run (s.track.pose.settings.map Setting.step ++ body)
    (s.applyEffect fx 2).records = (s.run (Sprite.inLoop 2 body)).records := by
  intro s body fx
  have hbody : ∀ t ∈ body, t.InLoop := by
    intro t ht
    simp only [body, List.mem_cons, List.not_mem_nil, or_false] at ht
    obtain rfl | rfl | rfl | rfl | rfl := ht
    · exact .sleep _
    · exact .animate _ _ _
    · exact .sleep _
    · exact .startBatch
    · exact .animate _ _ _
  exact (applyEffect_eq_loop rfl rfl 2 (.refl _) hbody).1

end Storyboard
