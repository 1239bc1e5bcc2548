/-
Storyboard/Proofs/CompiledLines.lean

Everything that is compiled from scripts is well-formed output.

The numbers of scripts are finite when they are read, and from there every number
takes one of two ways into a record: straight from a call, or through the pose, where
an earlier call, the placement or the first pose has left it.  So the invariant of a
track (`Track.Sound`) is that its pose is finite and its records are well-formed.
Every action of a script keeps it (`Track.Sound.act`), and so does playing an effect
that has it, as the records are copied as they are.

Main result: `Document.line_of_evaluated`.
-/
import Storyboard.Proofs.Attempts
import Storyboard.Proofs.Chain
import Storyboard.Proofs.Evaluation
import Storyboard.Proofs.LineGrammar

namespace Storyboard

open Json

/-! ### Poses -/

/-- Every value of the pose is finite. -/
def Pose.Finite (p : Pose) : Prop := ∀ c, AllFinite (p.get c).numbers

namespace Pose

theorem finite_placedAt {x y : Binary64} (hx : x.isFinite = true) (hy : y.isFinite = true) :
    (placedAt x y).Finite := by
  intro c
  cases c with
  | transparency => exact .singleton (Binary64.isFinite_ofNat (by decide))
  | position => exact .cons hx (.singleton hy)
  | size => exact .singleton (Binary64.isFinite_ofNat (by decide))
  | rotation => exact .singleton (Binary64.isFinite_ofNat (by decide))
  | color => exact .nil

theorem Finite.set {p : Pose} (h : p.Finite) {s : Setting} (hs : AllFinite s.numbers) :
    (p.set s).Finite := by
  intro c
  by_cases hc : s.channel = c
  · rw [← hc, get_set_self]
    exact hs
  · rw [get_set_of_ne p hc]
    exact h c

end Pose

/-! ### Animations -/

namespace Animation

/-- The target of an animation is finite. -/
theorem finite_target {a : Animation} {d : Ms} {e : Easing}
    (ha : AllFinite (Call.act (.animate a d e)).numbers) {s : Setting} (h : a.target? = some s) :
    AllFinite s.numbers := by
  cases a with
  | fadeIn =>
    obtain rfl := Option.some.inj h
    exact .singleton (Binary64.isFinite_ofNat (by decide))
  | fadeOut =>
    obtain rfl := Option.some.inj h
    exact .singleton (Binary64.isFinite_ofNat (by decide))
  | towards t =>
    obtain rfl := Option.some.inj h
    exact ha
  | parameter f => cases h

/-- The parameters of an animation are those that its command asks for. -/
theorem takes {a : Animation} {d : Ms} {e : Easing} {p : Pose} (hp : p.Finite)
    (ha : AllFinite (Call.act (.animate a d e)).numbers) : a.opcode.Takes (a.params p) := by
  cases htarget : a.target? with
  | some s =>
    rw [opcode_of_target htarget, params_of_target p htarget]
    exact .path (p.channel_get s.channel) (hp s.channel) (finite_target ha htarget)
  | none =>
    cases a with
    | parameter f => exact .flag f
    | _ => cases htarget

end Animation

/-! ### Tracks -/

/-- The pose is finite, and every record has a line in the grammar. -/
structure Track.Sound (t : Track) : Prop where
  pose : t.pose.Finite
  records : ∀ r ∈ t.records, r.WellFormed

namespace Track.Sound

variable {t : Track}

theorem wellFormed_of_written (h : t.Sound) {a : Action} (ha : AllFinite (Call.act a).numbers)
    {r : Record} (hr : r ∈ t.written (.act a)) : r.WellFormed := by
  cases a with
  | animate a d e =>
    obtain rfl := List.mem_singleton.mp hr
    exact .command _ e _ _ (a.takes h.pose ha)
  | bracket b =>
    cases b with
    | startLoop count =>
      rw [written, Timeline.opened] at hr
      split at hr
      · cases hr
      · obtain rfl := List.mem_singleton.mp hr
        exact .marker _ count
    | endLoop => cases hr
    | startBatch => cases hr
    | endBatch => cases hr
  | sleep d => cases hr
  | setTime ms => cases hr
  | assign s => cases hr

theorem finite_pose_act (h : t.Sound) {a : Action} (ha : AllFinite (Call.act a).numbers) :
    (t.act a).pose.Finite := by
  cases a with
  | animate a d e =>
    show (a.finish t.pose).Finite
    rw [Animation.finish]
    split
    · rename_i s htarget
      exact h.pose.set (a.finite_target ha htarget)
    · exact h.pose
  | bracket b => exact h.pose
  | sleep d => exact h.pose
  | setTime ms => exact h.pose
  | assign s => exact h.pose.set ha

/-- An action of a script keeps a track sound. -/
theorem act (h : t.Sound) {a : Action} (ha : AllFinite (Call.act a).numbers) : (t.act a).Sound where
  pose := h.finite_pose_act ha
  records := by
    intro r hr
    change r ∈ (t.step (.act a)).records at hr
    rw [records_step] at hr
    rcases List.mem_append.mp hr with hr | hr
    · exact h.records r hr
    · exact h.wellFormed_of_written ha hr

end Track.Sound

/-! ### Effects and sprites -/

/-- The calls of an effect keep it sound. -/
theorem Effect.sound_run {calls : List Call} (hcalls : ∀ c ∈ calls, AllFinite c.numbers)
    {e : Effect} (he : e.track.Sound) : (e.run (calls.filterMap Call.step?)).track.Sound := by
  induction calls generalizing e with
  | nil => exact he
  | cons c rest ih =>
    have hrest : ∀ d ∈ rest, AllFinite d.numbers := fun d hd =>
      hcalls d (List.mem_cons_of_mem c hd)
    cases c with
    | act a => exact ih hrest (e := e.act a) (he.act (hcalls _ List.mem_cons_self))
    | setLayer layer => exact ih hrest he
    | applyEffect name count => exact ih hrest he

theorem Effect.sound_empty : empty.track.Sound where
  pose := Pose.finite_placedAt (Binary64.isFinite_ofNat (by decide))
    (Binary64.isFinite_ofNat (by decide))
  records := fun _ hr => absurd hr List.not_mem_nil

/-- The effect of a definition is sound. -/
theorem EffectScript.sound_built {d : EffectScript}
    (h : AllFinite (d.calls.flatMap Call.numbers)) : d.built.track.Sound :=
  Effect.sound_run (fun c hc x hx => h x (List.mem_flatMap.mpr ⟨c, hc, hx⟩)) Effect.sound_empty

/-- Every effect of the table is sound. -/
def EffectTable.Sound (effects : EffectTable) : Prop :=
  ∀ name e, effects.lookup name = some e → e.track.Sound

namespace Sprite

variable {effects : EffectTable} {s : Sprite}

/-- What is played is copied as it is. -/
theorem sound_applyEffect (h : s.track.Sound) {e : Effect} (he : e.track.Sound) (count : UInt32) :
    (s.applyEffect e count).track.Sound where
  pose := h.pose
  records := by
    intro r hr
    change r ∈ (s.track.timeline.play e.track.timeline count).records at hr
    rw [Timeline.records_play] at hr
    rcases List.mem_append.mp hr with hr | hr
    · exact h.records r hr
    · rcases List.mem_cons.mp hr with rfl | hr
      · exact .marker _ count
      · exact he.records r hr

theorem sound_edit (heffects : effects.Sound) (h : s.track.Sound) {c : Call}
    (hc : AllFinite c.numbers) {e : Edit} (he : c.edit? effects = some e) :
    (s.edit e).track.Sound := by
  cases c with
  | act a =>
    obtain rfl := Option.some.inj he
    exact h.act hc
  | setLayer layer =>
    obtain rfl := Option.some.inj he
    exact h
  | applyEffect name count =>
    obtain ⟨fx, hfx, rfl⟩ := Option.map_eq_some_iff.mp he
    exact sound_applyEffect h (heffects name fx hfx) count

/-- The calls of a sprite keep it sound. -/
theorem sound_run (heffects : effects.Sound) {calls : List Call}
    (hcalls : ∀ c ∈ calls, AllFinite c.numbers) (h : s.track.Sound) :
    (s.run (calls.filterMap (Call.edit? effects))).track.Sound := by
  induction calls generalizing s with
  | nil => exact h
  | cons c rest ih =>
    have hrest : ∀ d ∈ rest, AllFinite d.numbers := fun d hd =>
      hcalls d (List.mem_cons_of_mem c hd)
    cases he : c.edit? effects with
    | none =>
      rw [List.filterMap_cons_none he]
      exact ih hrest h
    | some e =>
      rw [List.filterMap_cons_some he]
      exact ih hrest (s := s.edit e) (sound_edit heffects h (hcalls c List.mem_cons_self) he)

end Sprite

theorem Placement.sound_build {p : Placement} (hx : p.x.isFinite = true) (hy : p.y.isFinite = true) :
    p.build.track.Sound where
  pose := Pose.finite_placedAt hx hy
  records := by
    intro r hr
    obtain rfl := List.mem_singleton.mp hr
    exact .header p.layer p.origin p.image hx hy

/-- The sprite of a definition is sound. -/
theorem SpriteScript.sound_built {effects : EffectTable} (heffects : effects.Sound)
    {d : SpriteScript} (h : AllFinite d.numbers) : (d.built effects).track.Sound := by
  have hx : d.placement.x.isFinite = true := h _ (.head _)
  have hy : d.placement.y.isFinite = true := h _ (.tail _ (.head _))
  have hcalls : ∀ c ∈ d.calls, AllFinite c.numbers := fun c hc x hmem =>
    h x (.tail _ (.tail _ (List.mem_flatMap.mpr ⟨c, hc, hmem⟩)))
  exact Sprite.sound_run heffects hcalls (Placement.sound_build hx hy)

/-! ### Documents -/

namespace Document

theorem sound_templates {d : Document} (h : AllFinite d.numbers) : d.templates.Sound := by
  intro name e he
  obtain ⟨before, after, htable, -⟩ := List.lookup_eq_some_iff.mp he
  have hmem : (name, e) ∈ d.templates := by
    rw [htable]
    exact List.mem_append_right before List.mem_cons_self
  obtain ⟨fx, hfx, heq⟩ := List.mem_map.mp hmem
  cases heq
  exact EffectScript.sound_built fun x hx =>
    h x (List.mem_append_left _ (List.mem_flatMap.mpr ⟨fx, hfx, hx⟩))

/-- Every sprite of a document with finite numbers is sound. -/
theorem sound_of_evaluate {d : Document} (h : AllFinite d.numbers) {b : Board}
    (hb : d.evaluate.outcome = .ok b) : ∀ s ∈ b.toList, s.track.Sound := by
  intro s hs
  rw [(outcome_evaluate_eq_ok_iff.mp hb).2] at hs
  obtain ⟨script, hscript, rfl⟩ := List.mem_map.mp hs
  exact SpriteScript.sound_built (sound_templates h) fun x hx =>
    h x (List.mem_append_right _ (List.mem_flatMap.mpr ⟨script, hscript, hx⟩))

/-! ### The theorem -/

/-- **Everything compiled from script texts is well-formed output.**  Where all texts
are read and the merged document evaluates, every record of every sprite is written as a
line of the grammar. -/
theorem line_of_evaluated {source : Source} {texts : List (List UInt8)} {docs : List Document}
    (hdocs : texts.mapM (read source) = .ok docs) {b : Board}
    (hb : (merge docs).evaluate.outcome = .ok b) :
    ∀ s ∈ b.toList, ∀ r ∈ s.records, EventLine r.line := by
  intro s hs r hr
  have hfinite : ∀ d ∈ docs, AllFinite d.numbers := by
    intro d hd
    obtain ⟨text, -, hread⟩ := exists_of_mem_mapM hdocs hd
    exact finite_of_read hread
  have hsound := sound_of_evaluate (finite_merge hfinite) hb s hs
  exact eventLine_of_wellFormed (hsound.records r hr)

/-- A sprite at a half plays an effect that another text defines: a header, a marker and
a command of color. -/
theorem line_of_evaluated_two_texts :
    let library := Utf8.encode "[[[\"glow\",[\x7b\"color\":[5,[1,2,3]]\x7d]]]]"
    let script := Utf8.encode
      "[[],[[\"a.png\",0,\"Centre\",\"Fail\",0.5,2,[\x7b\"apply_effect\":[\"glow\",3]\x7d]]]]"
    ∃ docs b, [library, script].mapM (read .text) = .ok docs ∧
      (merge docs).evaluate.outcome = .ok b ∧ b.recordCount = 3 ∧
      ∀ s ∈ b.toList, ∀ r ∈ s.records, EventLine r.line := by
  intro library script
  let glow : EffectScript :=
    ⟨"glow", [.act (.animate (.towards (.color ⟨1, 2, 3⟩)) (.clamp 5) .linear)]⟩
  let sprite : SpriteScript :=
    ⟨⟨"a.png", 0, .centre, .fail, .ofRatio false 1 2, .ofNat 2⟩, [.applyEffect "glow" 3]⟩
  have hread : ([library, script].mapM (read .text)).toOption =
      some [⟨[glow], []⟩, ⟨[], [sprite]⟩] := by
    decide +kernel
  have hcount : (merge [⟨[glow], []⟩, ⟨[], [sprite]⟩]).evaluate.outcome.toOption.map
      Board.recordCount = some 3 := by
    decide +kernel
  cases hdocs : [library, script].mapM (read .text) with
  | error e =>
    rw [hdocs] at hread
    cases hread
  | ok docs =>
    rw [hdocs] at hread
    obtain rfl := Option.some.inj hread
    cases hb : (merge [⟨[glow], []⟩, ⟨[], [sprite]⟩]).evaluate.outcome with
    | error e =>
      rw [hb] at hcount
      cases hcount
    | ok b =>
      rw [hb] at hcount
      exact ⟨_, b, rfl, hb, Option.some.inj hcount, line_of_evaluated hdocs hb⟩

end Document

end Storyboard
