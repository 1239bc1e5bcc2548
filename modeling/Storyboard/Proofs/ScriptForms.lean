/-
Storyboard/Proofs/ScriptForms.lean

Scripts are read back from every form of their JSON.

A form of a document is its JSON with the members of any objects in any order and with
any members left out that hold their default (`Document.Form`).  What `toJson` writes is
one of them.

Each type of a script has one lemma: its table reads every form of its values.  The
lemmas follow the tables of `Storyboard.Script.Format` from the scalars up to the
document, and since the reader of a record or of alternatives is one for all tables, a
lemma here only lists the lemmas of the members and the defaults.

Main result: `Document.read_spaced_form`.
-/
import Mathlib.Data.List.Forall2
import Storyboard.Proofs.Json.Records
import Storyboard.Script.Format
import Storyboard.Script.Written

namespace Storyboard

open Json

/-! ### The numbers of a document -/

/-- The doubles of a setting. -/
def Setting.numbers : Setting → List Binary64
  | transparency t => [t]
  | position x y => [x, y]
  | size s => [s]
  | rotation r => [r]
  | color _ => []

/-- The doubles of a call. -/
def Call.numbers : Call → List Binary64
  | act (.animate (.towards s) _ _) => s.numbers
  | act (.assign s) => s.numbers
  | _ => []

/-- The doubles of a sprite. -/
def SpriteScript.numbers (s : SpriteScript) : List Binary64 :=
  s.placement.x :: s.placement.y :: s.calls.flatMap Call.numbers

/-- The doubles of a document. -/
def Document.numbers (d : Document) : List Binary64 :=
  d.effects.flatMap (fun e => e.calls.flatMap Call.numbers) ++
    d.sprites.flatMap SpriteScript.numbers

/-! ### Forms of a document -/

/-- The value is a color, its channels in any order. -/
def Rgb.Form (c : Rgb) (v : Value) : Prop :=
  ∃ ms, v = .object ms ∧
    Loosened [] [("r", .integer c.r.toNat), ("g", .integer c.g.toNat), ("b", .integer c.b.toNat)] ms

/-- The members are all those of a call with fields, a color in any form. -/
inductive Call.Members : Call → List (String × Value) → Prop where
  | written {c : Call} {members : List (String × Value)} :
      c.members? = some members → Members c members
  | animatedColor {c : Rgb} {d : Ms} {e : Easing} {v : Value} : c.Form v →
      Members (.act (.animate (.towards (.color c)) d e))
        [("duration", d.toJson), ("color", v), ("easing", e.toJson)]
  | assignedColor {c : Rgb} {v : Value} : c.Form v →
      Members (.act (.assign (.color c))) [("color", v)]

/-- What the members of a call are where nothing is said: no curve, and an effect is played
once. -/
def Call.defaults : Call → List (String × Value)
  | act (.animate _ _ _) => [("easing", .integer 0)]
  | applyEffect _ _ => [("count", .integer 1)]
  | _ => []

/-- The value is a call, its members in any order and defaults left out. -/
inductive Call.Form : Call → Value → Prop where
  | bare {c : Call} : c.members? = none → Form c (.text c.name)
  | object {c : Call} {members ms : List (String × Value)} : c.Members members →
      Loosened c.defaults members ms → Form c (.object [(c.name, .object ms)])

/-- The value is an effect, its members in any order and defaults left out. -/
def EffectScript.Form (e : EffectScript) (v : Value) : Prop :=
  ∃ calls ms, List.Forall₂ Call.Form e.calls calls ∧ v = .object ms ∧
    Loosened [("calls", .list [])] [("name", .text e.name), ("calls", .list calls)] ms

/-- The value is a sprite, its members in any order and defaults left out. -/
def SpriteScript.Form (s : SpriteScript) (v : Value) : Prop :=
  ∃ calls ms, List.Forall₂ Call.Form s.calls calls ∧ v = .object ms ∧
    Loosened
      [("start_ms", .integer 0), ("origin", .text "Centre"), ("layer", .text "Background"),
       ("x", .float (.ofNat 320)), ("y", .float (.ofNat 240)), ("calls", .list [])]
      [("image", .text s.placement.image), ("start_ms", s.placement.startMs.toJson),
       ("origin", .text s.placement.origin.name), ("layer", .text s.placement.layer.name),
       ("x", .float s.placement.x), ("y", .float s.placement.y), ("calls", .list calls)] ms

/-- The value is a document, its members in any order and defaults left out, and those of
its parts as well. -/
def Document.Form (d : Document) (v : Value) : Prop :=
  ∃ effects sprites ms, List.Forall₂ EffectScript.Form d.effects effects ∧
    List.Forall₂ SpriteScript.Form d.sprites sprites ∧ v = .object ms ∧
    Loosened [("effects", .list []), ("sprites", .list [])]
      [("effects", .list effects), ("sprites", .list sprites)] ms

/-! ### The form that is written -/

theorem Rgb.form_toJson (c : Rgb) : c.Form c.toJson := ⟨_, rfl, .refl _ _⟩

theorem Call.form_toJson (c : Call) : c.Form c.toJson := by
  rw [toJson]
  cases h : c.members? with
  | none => exact .bare h
  | some members => exact .object (.written h) (.refl _ _)

theorem EffectScript.form_toJson (e : EffectScript) : e.Form e.toJson :=
  ⟨_, _, List.forall₂_map_right_iff.mpr (List.forall₂_same.mpr fun c _ => c.form_toJson), rfl,
    .refl _ _⟩

theorem SpriteScript.form_toJson (s : SpriteScript) : s.Form s.toJson :=
  ⟨_, _, List.forall₂_map_right_iff.mpr (List.forall₂_same.mpr fun c _ => c.form_toJson), rfl,
    .refl _ _⟩

theorem Document.form_toJson (d : Document) : d.Form d.toJson :=
  ⟨_, _, _, List.forall₂_map_right_iff.mpr (List.forall₂_same.mpr fun e _ => e.form_toJson),
    List.forall₂_map_right_iff.mpr (List.forall₂_same.mpr fun s _ => s.form_toJson), rfl,
    .refl _ _⟩

namespace Script

/-! ### Scalars and names -/

theorem reads_ms (a : Ms) : Reads ms a a.toJson := by
  have hlow := a.lower
  have hhigh := a.upper
  refine reads_integer hlow (by omega) ?_
  rw [Ms.ofInt?, dif_pos ⟨hlow, hhigh⟩]

theorem reads_count (n : UInt32) : Reads count n (.integer n.toNat) := by
  have hlt : n.toNat < 0x100000000 := n.toNat_lt
  refine reads_integer (by omega) (by omega) ?_
  rw [count?, if_pos ⟨by omega, by omega⟩, Int.toNat_natCast, UInt32.ofNat_toNat]

theorem reads_byte (b : UInt8) : Reads byte b (.integer b.toNat) := by
  have hlt : b.toNat < 0x100 := b.toNat_lt
  refine reads_integer (by omega) (by omega) ?_
  rw [byte?, if_pos ⟨by omega, by omega⟩, Int.toNat_natCast, UInt8.ofNat_toNat]

theorem reads_easing (e : Easing) : Reads easing e e.toJson := by
  have hcode : (UInt8.ofNat e.code).toNat = e.code :=
    Utf8.toNat_byte (Nat.lt_trans e.code_lt (by decide))
  -- a code fits one byte
  have h := reads_byte (UInt8.ofNat e.code)
  rw [hcode] at h
  refine Reads.bind_pure h ?_
  rw [hcode, Easing.ofCode?_code]

theorem reads_origin (o : Origin) : Reads (Reader.variant origins) o (.text o.name) :=
  reads_bareVariant (by decide) (List.mem_map_of_mem (Origin.mem_all o))

theorem reads_layer (l : Layer) : Reads (Reader.variant layers) l (.text l.name) :=
  reads_bareVariant (by decide) (List.mem_map_of_mem (Layer.mem_all l))

theorem reads_flag (f : Flag) : Reads (Reader.variant flags) f (.text f.name) :=
  reads_bareVariant (by decide) (List.mem_map_of_mem (Flag.mem_all f))

theorem no_defaults (fs : List Field) : ∀ m ∈ [], DefaultMember fs m :=
  fun _ hm => absurd hm List.not_mem_nil

theorem reads_colorForm {c : Rgb} {v : Value} (h : c.Form v) :
    Reads (Reader.record color) c v := by
  obtain ⟨ms, rfl, hms⟩ := h
  have hfull : InOrder colorFields (c.r, c.g, c.b, ())
      [("r", .integer c.r.toNat), ("g", .integer c.g.toNat), ("b", .integer c.b.toNat)] :=
    .cons (reads_byte c.r) (.cons (reads_byte c.g) (.cons (reads_byte c.b) .nil))
  have hfields : (color.fields.map Field.name).Nodup := by decide
  exact reads_record_loosened hfields hfull (no_defaults _) hms

/-! ### Calls -/

theorem nodup_calls : (calls.map Variant.name).Nodup := by decide

theorem mem_calls {w : Variant Call} {k : Nat} (h : calls[k]? = some w) : w ∈ calls :=
  List.mem_of_getElem? h

/-- The members are those of a call with fields, in the order of its entry in the table, and
what the call may leave out are defaults of the entry. -/
inductive Listed : Call → List (String × Value) → Prop where
  | entry {c : Call} {label : String} {fields : List Field} {build : Values fields → Call}
      {values : Values fields} {members : List (String × Value)} :
      callOf c.name label fields build ∈ calls → build values = c →
      (fields.map Field.name).Nodup → InOrder fields values members →
      (∀ m ∈ c.defaults, DefaultMember fields m) → Listed c members

theorem defaultMember_easing {fields : List Field} (h : easingField ∈ fields) :
    ∀ m ∈ [("easing", Value.integer 0)], DefaultMember fields m := by
  intro m hm
  obtain rfl := List.mem_singleton.mp hm
  exact ⟨easingField, h, rfl, .linear, rfl, reads_easing .linear⟩

theorem inOrder_easing (e : Easing) : InOrder [easingField] (e, ()) [("easing", e.toJson)] :=
  .cons (reads_easing e) .nil

/-- An animation towards a color. -/
theorem listed_animatedColor {c : Rgb} {v : Value} (h : c.Form v) (d : Ms) (e : Easing) :
    Listed (.act (.animate (.towards (.color c)) d e))
      [("duration", d.toJson), ("color", v), ("easing", e.toJson)] :=
  .entry (mem_calls (k := 6) rfl) rfl (by decide)
    (.cons (reads_ms d) (.cons (reads_colorForm h) (inOrder_easing e)))
    (defaultMember_easing (.tail _ (.tail _ (.head _))))

/-- The assignment of a color. -/
theorem listed_assignedColor {c : Rgb} {v : Value} (h : c.Form v) :
    Listed (.act (.assign (.color c))) [("color", v)] :=
  .entry (mem_calls (k := 18) rfl) rfl (by decide) (.cons (reads_colorForm h) .nil)
    (no_defaults _)

/-- An animation. -/
theorem listed_animate {a : Animation} {d : Ms} {e : Easing}
    (h : ∀ x ∈ (Call.act (.animate a d e)).numbers, ReadsBack x) :
    Listed (.act (.animate a d e))
      (("duration", d.toJson) :: (a.members ++ [("easing", e.toJson)])) := by
  have heasing := inOrder_easing e
  rcases a with _ | _ | s | f
  · exact .entry (mem_calls (k := 0) rfl) rfl (by decide) (.cons (reads_ms d) heasing)
      (defaultMember_easing (.tail _ (.head _)))
  · exact .entry (mem_calls (k := 1) rfl) rfl (by decide) (.cons (reads_ms d) heasing)
      (defaultMember_easing (.tail _ (.head _)))
  · rcases s with t | ⟨x, y⟩ | s | r | c
    · have ht : ReadsBack t := h t (.head _)
      exact .entry (mem_calls (k := 2) rfl) rfl (by decide)
        (.cons (reads_ms d) (.cons (reads_float ht) heasing))
        (defaultMember_easing (.tail _ (.tail _ (.head _))))
    · have hx : ReadsBack x := h x (.head _)
      have hy : ReadsBack y := h y (.tail _ (.head _))
      exact .entry (mem_calls (k := 3) rfl) rfl (by decide)
        (.cons (reads_ms d) (.cons (reads_float hx) (.cons (reads_float hy) heasing)))
        (defaultMember_easing (.tail _ (.tail _ (.tail _ (.head _)))))
    · have hs : ReadsBack s := h s (.head _)
      exact .entry (mem_calls (k := 4) rfl) rfl (by decide)
        (.cons (reads_ms d) (.cons (reads_float hs) heasing))
        (defaultMember_easing (.tail _ (.tail _ (.head _))))
    · have hr : ReadsBack r := h r (.head _)
      exact .entry (mem_calls (k := 5) rfl) rfl (by decide)
        (.cons (reads_ms d) (.cons (reads_float hr) heasing))
        (defaultMember_easing (.tail _ (.tail _ (.head _))))
    · exact listed_animatedColor c.form_toJson d e
  · exact .entry (mem_calls (k := 7) rfl) rfl (by decide)
      (.cons (reads_ms d) (.cons (reads_flag f) heasing))
      (defaultMember_easing (.tail _ (.tail _ (.head _))))

/-- An assignment. -/
theorem listed_assign {s : Setting} (h : ∀ x ∈ s.numbers, ReadsBack x) :
    Listed (.act (.assign s)) s.members := by
  rcases s with t | ⟨x, y⟩ | s | r | c
  · have ht : ReadsBack t := h t (.head _)
    exact .entry (mem_calls (k := 16) rfl) rfl (by decide) (.cons (reads_float ht) .nil)
      (no_defaults _)
  · have hx : ReadsBack x := h x (.head _)
    have hy : ReadsBack y := h y (.tail _ (.head _))
    exact .entry (mem_calls (k := 14) rfl) rfl (by decide)
      (.cons (reads_float hx) (.cons (reads_float hy) .nil)) (no_defaults _)
  · have hs : ReadsBack s := h s (.head _)
    exact .entry (mem_calls (k := 15) rfl) rfl (by decide) (.cons (reads_float hs) .nil)
      (no_defaults _)
  · have hr : ReadsBack r := h r (.head _)
    exact .entry (mem_calls (k := 17) rfl) rfl (by decide) (.cons (reads_float hr) .nil)
      (no_defaults _)
  · exact listed_assignedColor c.form_toJson

/-- A call with fields. -/
theorem listed_of_members {c : Call} {members : List (String × Value)}
    (hmembers : c.Members members) (h : ∀ x ∈ c.numbers, ReadsBack x) : Listed c members := by
  cases hmembers with
  | animatedColor hv => exact listed_animatedColor hv _ _
  | assignedColor hv => exact listed_assignedColor hv
  | written hmembers =>
    rcases c with a | l | ⟨e, n⟩
    · rcases a with ⟨a, d, e⟩ | b | d | t | s
      · obtain rfl := Option.some.inj hmembers
        exact listed_animate h
      · rcases b with n | _ | _ | _
        · obtain rfl := Option.some.inj hmembers
          exact .entry (mem_calls (k := 8) rfl) rfl (by decide) (.cons (reads_count n) .nil)
            (no_defaults _)
        · cases hmembers
        · cases hmembers
        · cases hmembers
      · obtain rfl := Option.some.inj hmembers
        exact .entry (mem_calls (k := 12) rfl) rfl (by decide) (.cons (reads_ms d) .nil)
          (no_defaults _)
      · obtain rfl := Option.some.inj hmembers
        exact .entry (mem_calls (k := 13) rfl) rfl (by decide) (.cons (reads_ms t) .nil)
          (no_defaults _)
      · obtain rfl := Option.some.inj hmembers
        exact listed_assign h
    · obtain rfl := Option.some.inj hmembers
      exact .entry (mem_calls (k := 19) rfl) rfl (by decide) (.cons (reads_layer l) .nil)
        (no_defaults _)
    · obtain rfl := Option.some.inj hmembers
      refine .entry (mem_calls (k := 20) rfl) rfl (by decide)
        (.cons (reads_string e) (.cons (reads_count n) .nil)) fun m hm => ?_
      obtain rfl := List.mem_singleton.mp hm
      exact ⟨_, .tail _ (.head _), rfl, 1, rfl, reads_count 1⟩

/-- A call without fields is one of the three brackets that have a bare name. -/
theorem mem_calls_of_bare {c : Call} (h : c.members? = none) : ⟨c.name, .bare c⟩ ∈ calls := by
  rcases c with a | l | ⟨e, n⟩
  · rcases a with ⟨a, d, e⟩ | b | d | t | s
    · cases h
    · rcases b with n | _ | _ | _
      · cases h
      · exact mem_calls (k := 9) rfl
      · exact mem_calls (k := 10) rfl
      · exact mem_calls (k := 11) rfl
    · cases h
    · cases h
    · cases h
  · cases h
  · cases h

theorem reads_callForm {c : Call} {v : Value} (hv : c.Form v)
    (h : ∀ x ∈ c.numbers, ReadsBack x) : Reads (Reader.variant calls) c v := by
  cases hv with
  | bare hbare => exact reads_bareVariant nodup_calls (mem_calls_of_bare hbare)
  | object hmembers hms =>
    obtain ⟨hcall, rfl, hfields, hfull, hdefaults⟩ := listed_of_members hmembers h
    exact reads_recordVariant nodup_calls hcall
      (reads_record_loosened hfields hfull hdefaults hms)

/-! ### Documents -/

/-- A list, each element of which is read from its form. -/
theorem reads_forms {α : Type} {element : Reader α} {Form : α → Value → Prop} {as : List α}
    {vs : List Value} (hvs : List.Forall₂ Form as vs)
    (h : ∀ a ∈ as, ∀ v, Form a v → Reads element a v) :
    Reads (Reader.list element) as (.list vs) := by
  have hreads : List.Forall₂ (Reads element) as vs :=
    ((List.forall₂_and_left as vs).mpr ⟨h, hvs⟩).imp fun _ v hv => hv.1 v hv.2
  obtain ⟨hlength, hzip⟩ := List.forall₂_iff_zip.mp hreads
  have hpairs : ∀ p ∈ as.zip vs, Reads element p.1 p.2 := fun p hp => hzip hp
  have hlist := reads_list hpairs
  rw [List.map_fst_zip (Nat.le_of_eq hlength), List.map_snd_zip (Nat.le_of_eq hlength.symm)]
    at hlist
  exact hlist

theorem reads_callForms {calls : List Call} {vs : List Value}
    (hvs : List.Forall₂ Call.Form calls vs)
    (h : ∀ x ∈ calls.flatMap Call.numbers, ReadsBack x) :
    Reads callsField.read calls (.list vs) := by
  apply reads_forms hvs
  intro c hc v hv
  apply reads_callForm hv
  intro x hx
  exact h x (List.mem_flatMap.mpr ⟨c, hc, hx⟩)

theorem reads_nil {α : Type} (element : Reader α) : Reads (Reader.list element) [] (.list []) := by
  have hnone : ∀ p ∈ ([] : List (α × Value)), Reads element p.1 p.2 :=
    fun _ hp => absurd hp List.not_mem_nil
  exact reads_list hnone

theorem defaultMember_calls {fields : List Field} (h : callsField ∈ fields) :
    DefaultMember fields ("calls", .list []) :=
  ⟨callsField, h, rfl, [], rfl, reads_nil _⟩

theorem reads_effectForm {e : EffectScript} {v : Value} (hv : e.Form v)
    (h : ∀ x ∈ e.calls.flatMap Call.numbers, ReadsBack x) : Reads (Reader.record effect) e v := by
  obtain ⟨vs, ms, hvs, rfl, hms⟩ := hv
  have hfull : InOrder effect.fields (e.name, e.calls, ())
      [("name", .text e.name), ("calls", .list vs)] :=
    .cons (reads_string e.name) (.cons (reads_callForms hvs h) .nil)
  refine reads_record_loosened (by decide) hfull (fun m hm => ?_) hms
  obtain rfl := List.mem_singleton.mp hm
  exact defaultMember_calls (.tail _ (.head _))

/-- A double with one digit after the point is read back from its text if it is the quotient
of the digits and ten. -/
theorem readsBack_of_tenths {x : Binary64} {text : String} {negative : Bool} {n : Nat}
    (htext : x.jsonText = text)
    (hread : Reader.runOn Reader.float .text (Utf8.encode text) =
      .ok (signed negative (scaleDown (.ofNat n) 1)))
    (hvalue : signed negative ((Binary64.ofNat n).div (.tenPow 1)) = x) : ReadsBack x := by
  have hscaled : scaleDown (.ofNat n) 1 = (Binary64.ofNat n).div (.tenPow 1) := by
    rw [scaleDown, if_pos (by decide)]
  rw [ReadsBack, htext, hread, hscaled, hvalue]

theorem readsBack_centreX : ReadsBack Pose.centreX := by
  have hread : Reader.runOn Reader.float .text (Utf8.encode "320.0") =
      .ok (signed false (scaleDown (.ofNat 3200) 1)) := by rfl
  exact readsBack_of_tenths (by decide +kernel) hread (by decide +kernel)

theorem readsBack_centreY : ReadsBack Pose.centreY := by
  have hread : Reader.runOn Reader.float .text (Utf8.encode "240.0") =
      .ok (signed false (scaleDown (.ofNat 2400) 1)) := by rfl
  exact readsBack_of_tenths (by decide +kernel) hread (by decide +kernel)

theorem reads_spriteForm {s : SpriteScript} {v : Value} (hv : s.Form v)
    (h : ∀ x ∈ s.numbers, ReadsBack x) : Reads (Reader.record sprite) s v := by
  obtain ⟨vs, ms, hvs, rfl, hms⟩ := hv
  have hx : ReadsBack s.placement.x := h _ (.head _)
  have hy : ReadsBack s.placement.y := h _ (.tail _ (.head _))
  have hcalls := reads_callForms hvs fun x hx => h x (.tail _ (.tail _ hx))
  have hfull : InOrder sprite.fields
      (s.placement.image, s.placement.startMs, s.placement.origin, s.placement.layer,
        s.placement.x, s.placement.y, s.calls, ())
      [("image", .text s.placement.image), ("start_ms", s.placement.startMs.toJson),
       ("origin", .text s.placement.origin.name), ("layer", .text s.placement.layer.name),
       ("x", .float s.placement.x), ("y", .float s.placement.y), ("calls", .list vs)] :=
    .cons (reads_string _) (.cons (reads_ms _) (.cons (reads_origin _) (.cons (reads_layer _)
      (.cons (reads_float hx) (.cons (reads_float hy) (.cons hcalls .nil))))))
  refine reads_record_loosened (by decide) hfull (fun m hm => ?_) hms
  simp only [List.mem_cons, List.not_mem_nil, or_false] at hm
  obtain rfl | rfl | rfl | rfl | rfl | rfl := hm
  · exact ⟨_, .tail _ (.head _), rfl, 0, rfl, reads_ms 0⟩
  · exact ⟨_, .tail _ (.tail _ (.head _)), rfl, .centre, rfl, reads_origin .centre⟩
  · exact ⟨_, .tail _ (.tail _ (.tail _ (.head _))), rfl, .background, rfl,
      reads_layer .background⟩
  · exact ⟨_, .tail _ (.tail _ (.tail _ (.tail _ (.head _)))), rfl, Pose.centreX, rfl,
      reads_float readsBack_centreX⟩
  · exact ⟨_, .tail _ (.tail _ (.tail _ (.tail _ (.tail _ (.head _))))), rfl, Pose.centreY, rfl,
      reads_float readsBack_centreY⟩
  · exact defaultMember_calls
      (.tail _ (.tail _ (.tail _ (.tail _ (.tail _ (.tail _ (.head _)))))))

theorem reads_documentForm {d : Document} {v : Value} (hv : d.Form v)
    (h : ∀ x ∈ d.numbers, ReadsBack x) : Reads (Reader.record document) d v := by
  obtain ⟨effects, sprites, ms, heffects, hsprites, rfl, hms⟩ := hv
  have heffects : Reads (Reader.list (Reader.record effect)) d.effects (.list effects) := by
    apply reads_forms heffects
    intro e he v hv
    apply reads_effectForm hv
    intro x hx
    exact h x (List.mem_append_left _ (List.mem_flatMap.mpr ⟨e, he, hx⟩))
  have hsprites : Reads (Reader.list (Reader.record sprite)) d.sprites (.list sprites) := by
    apply reads_forms hsprites
    intro s hs v hv
    apply reads_spriteForm hv
    intro x hx
    exact h x (List.mem_append_right _ (List.mem_flatMap.mpr ⟨s, hs, hx⟩))
  have hfull : InOrder document.fields (d.effects, d.sprites, ())
      [("effects", .list effects), ("sprites", .list sprites)] :=
    .cons heffects (.cons hsprites .nil)
  refine reads_record_loosened (by decide) hfull (fun m hm => ?_) hms
  simp only [List.mem_cons, List.not_mem_nil, or_false] at hm
  obtain rfl | rfl := hm
  · exact ⟨_, .head _, rfl, [], rfl, reads_nil _⟩
  · exact ⟨_, .tail _ (.head _), rfl, [], rfl, reads_nil _⟩

end Script

/-! ### The theorem -/

namespace Document

/-- **The order of members and what is left out do not matter.**  What is written for a
document is one of its forms.  A document whose doubles are read back from their own texts
is read from every form of its JSON, that is with the members of each object in any order
and any members left out that hold their default, whatever white space there is between
the tokens. -/
theorem read_spaced_form (d : Document) :
    d.Form d.toJson ∧
      ((∀ x ∈ d.numbers, ReadsBack x) → ∀ v, d.Form v → ∀ text, Spaced v.tokens text →
        ∀ source, Document.read source (Utf8.encode text) = .ok d) :=
  ⟨d.form_toJson, fun h _ hv _ htext source =>
    (Script.reads_documentForm hv h).runOn_spaced htext source⟩

/-- All members that may be left out are, and the others stand in another order, down to the
channels of the color. -/
theorem read_spaced_form_of_defaults :
    let glow : EffectScript :=
      { name := "glow",
        calls := [.act (.animate (.towards (.color ⟨1, 2, 3⟩)) (.clamp 5) .linear),
          .act (.bracket .endLoop)] }
    let lamp : SpriteScript :=
      { placement := { image := "lamp.png" }, calls := [.applyEffect "glow" 1] }
    let d : Document := { effects := [glow], sprites := [lamp] }
    let color : Value := .object [("b", .integer 3), ("r", .integer 1), ("g", .integer 2)]
    let v : Value := .object
      [("sprites", .list [.object
          [("calls", .list [.object [("apply_effect", .object [("effect", .text "glow")])]]),
           ("image", .text "lamp.png")]]),
       ("effects", .list [.object
          [("calls", .list
              [.object [("color", .object [("color", color), ("duration", .integer 5)])],
               .text "end_loop"]),
           ("name", .text "glow")]])]
    Document.read .stream (Utf8.encode v.written) = .ok d := by
  intro glow lamp d color v
  have hcolor : Rgb.Form ⟨1, 2, 3⟩ color :=
    ⟨_, rfl, [], (List.perm_append_singleton _ [_, _]).symm, fun _ hm => absurd hm List.not_mem_nil⟩
  have hanimated : Loosened [("easing", .integer 0)]
      [("duration", .integer 5), ("color", color), ("easing", .integer 0)]
      [("color", color), ("duration", .integer 5)] :=
    ⟨[("easing", .integer 0)], .swap _ _ _, fun _ hm => hm⟩
  have hglow : glow.Form (.object
      [("calls", .list [.object [("color", .object [("color", color), ("duration", .integer 5)])],
         .text "end_loop"]), ("name", .text "glow")]) :=
    ⟨_, _, .cons (.object (.animatedColor hcolor) hanimated) (.cons (.bare rfl) .nil), rfl,
      [], .swap _ _ _, fun _ hm => absurd hm List.not_mem_nil⟩
  have hplayed : Loosened [("count", .integer 1)] [("effect", .text "glow"), ("count", .integer 1)]
      [("effect", .text "glow")] :=
    ⟨[("count", .integer 1)], .refl _, fun _ hm => hm⟩
  have hlamp : lamp.Form (.object
      [("calls", .list [.object [("apply_effect", .object [("effect", .text "glow")])]]),
       ("image", .text "lamp.png")]) := by
    refine ⟨_, _, .cons (.object (.written rfl) hplayed) .nil, rfl,
      [("start_ms", .integer 0), ("origin", .text "Centre"), ("layer", .text "Background"),
       ("x", .float (.ofNat 320)), ("y", .float (.ofNat 240))],
      (List.perm_append_singleton _ [_, _, _, _, _, _]).symm, fun m hm => ?_⟩
    simp only [List.mem_cons, List.not_mem_nil, or_false] at hm ⊢
    tauto
  have hform : d.Form v :=
    ⟨_, _, _, .cons hglow .nil, .cons hlamp .nil, rfl, [], .swap _ _ _,
      fun _ hm => absurd hm List.not_mem_nil⟩
  have hnumbers : ∀ x ∈ d.numbers, ReadsBack x := by
    have hall : d.numbers = [Pose.centreX, Pose.centreY] := rfl
    simp only [hall, List.forall_mem_cons]
    exact ⟨Script.readsBack_centreX, Script.readsBack_centreY,
      fun _ hx => absurd hx List.not_mem_nil⟩
  exact (read_spaced_form d).2 hnumbers v hform _ (spaced_written v) .stream

end Document

end Storyboard
