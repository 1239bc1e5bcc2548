/-
Storyboard/Proofs/Strictness.lean

Scripts are read strictly.

The rules of scripts say of a JSON text, as a tree, whether it may be read as a script:
which members every object has, which of them may be left out, which names there are
for calls, and the ranges of all whole numbers.  They stand here in full and know
nothing of the tables of `Storyboard.Script.Format`; what is proved is that each table
obeys its rules, and from that, by the lemmas on the readers that all tables share, that
a text which is read is a tree that keeps them.

Main result: `Document.read_strict`.
-/
import Storyboard.Failure
import Storyboard.Proofs.Json.Strict
import Storyboard.Proofs.Json.Unambiguous
import Storyboard.Script.Format

namespace Storyboard

open Json

namespace Script

/-! ### The rules of scripts -/

/-- A time in milliseconds. -/
def IsTime : Tree → Prop := Tree.IsWhole (-0x8000000000000000) 0x7fffffffffffffff

/-- A repeat count. -/
def IsCount : Tree → Prop := Tree.IsWhole 0 0xffffffff

/-- A channel of a color. -/
def IsChannel : Tree → Prop := Tree.IsWhole 0 255

/-- The code of an easing curve. -/
def IsEasing : Tree → Prop := Tree.IsWhole 0 34

/-- One of several names. -/
def IsNameOf (names : List String) : Tree → Prop := Tree.IsOneOf (names.map (⟨·, none⟩))

/-- A color; it alone may have other members. -/
def IsColor (v : Tree) : Prop :=
  v.IsRecord [⟨"r", IsChannel, true⟩, ⟨"g", IsChannel, true⟩, ⟨"b", IsChannel, true⟩] true

/-- How long a call takes. -/
def duration : Rule := ⟨"duration", IsTime, true⟩

/-- The curve of an animation. -/
def curve : Rule := ⟨"easing", IsEasing, false⟩

/-- A number. -/
def numeric (name : String) (required : Bool := true) : Rule := ⟨name, Tree.IsNumber, required⟩

/-- A color. -/
def coloring : Rule := ⟨"color", IsColor, true⟩

/-- The calls, with the members of each. -/
def callRules : List Alternative :=
  [⟨"fade_in", some [duration, curve]⟩,
   ⟨"fade_out", some [duration, curve]⟩,
   ⟨"fade", some [duration, numeric "transparency", curve]⟩,
   ⟨"move_to", some [duration, numeric "x", numeric "y", curve]⟩,
   ⟨"resize", some [duration, numeric "size", curve]⟩,
   ⟨"rotate", some [duration, numeric "rotation", curve]⟩,
   ⟨"color", some [duration, coloring, curve]⟩,
   ⟨"parameter", some [duration, ⟨"flag", IsNameOf (Flag.all.map Flag.name), true⟩, curve]⟩,
   ⟨"start_loop", some [⟨"count", IsCount, true⟩]⟩,
   ⟨"end_loop", none⟩,
   ⟨"start_batch", none⟩,
   ⟨"end_batch", none⟩,
   ⟨"sleep", some [duration]⟩,
   ⟨"set_time", some [⟨"ms", IsTime, true⟩]⟩,
   ⟨"set_position", some [numeric "x", numeric "y"]⟩,
   ⟨"set_size", some [numeric "size"]⟩,
   ⟨"set_transparency", some [numeric "transparency"]⟩,
   ⟨"set_rotation", some [numeric "rotation"]⟩,
   ⟨"set_color", some [coloring]⟩,
   ⟨"set_layer", some [⟨"layer", IsNameOf (Layer.all.map Layer.name), true⟩]⟩,
   ⟨"apply_effect", some [⟨"effect", Tree.IsText, true⟩, ⟨"count", IsCount, false⟩]⟩]

/-- A call. -/
def IsCall : Tree → Prop := Tree.IsOneOf callRules

/-- The calls of an effect or sprite. -/
def callList : Rule := ⟨"calls", Tree.IsList IsCall, false⟩

/-- A named effect. -/
def IsEffect (v : Tree) : Prop := v.IsRecord [⟨"name", Tree.IsText, true⟩, callList]

/-- A sprite. -/
def IsSprite (v : Tree) : Prop :=
  v.IsRecord
    [⟨"image", Tree.IsText, true⟩,
     ⟨"start_ms", IsTime, false⟩,
     ⟨"origin", IsNameOf (Origin.all.map Origin.name), false⟩,
     ⟨"layer", IsNameOf (Layer.all.map Layer.name), false⟩,
     numeric "x" false,
     numeric "y" false,
     callList]

/-- A script. -/
def IsScript (v : Tree) : Prop :=
  v.IsRecord
    [⟨"effects", Tree.IsList IsEffect, false⟩, ⟨"sprites", Tree.IsList IsSprite, false⟩]

/-! ### Scalars and names -/

theorem takes_ms : ms.Takes IsTime := by
  refine Reader.takes_integer fun i a h => ?_
  rw [Ms.ofInt?] at h
  split at h
  · rename_i hrange
    exact ⟨hrange.1, by omega⟩
  · cases h

theorem takes_count : count.Takes IsCount := by
  refine Reader.takes_integer fun i a h => ?_
  rw [count?] at h
  split at h
  · rename_i hrange
    exact ⟨hrange.1, by omega⟩
  · cases h

theorem byte?_eq_some {i : Int} {b : UInt8} (h : byte? i = some b) : 0 ≤ i ∧ i = b.toNat := by
  rw [byte?] at h
  split at h
  · rename_i hrange
    obtain rfl := Option.some.inj h
    refine ⟨hrange.1, ?_⟩
    rw [Utf8.toNat_byte (by omega), Int.toNat_of_nonneg hrange.1]
  · cases h

theorem takes_byte : byte.Takes IsChannel := by
  refine Reader.takes_integer fun i b h => ?_
  obtain ⟨hlow, rfl⟩ := byte?_eq_some h
  have hlt : b.toNat < 256 := b.toNat_lt
  exact ⟨hlow, by omega⟩

/-- Only the codes below 35 have a curve. -/
theorem lt_of_ofCode? {code : Nat} {e : Easing} (h : Easing.ofCode? code = some e) : code < 35 := by
  rw [Easing.ofCode?, Option.map_eq_some_iff] at h
  obtain ⟨entry, hentry, -⟩ := h
  obtain ⟨hlt, -⟩ := List.getElem?_eq_some_iff.mp hentry
  exact hlt

theorem takes_easing : easing.Takes IsEasing := by
  intro cs
  refine Reader.On.bind (Reader.on_integer "u8" byte? cs) ?_
  rintro b mid ⟨num, i, hstarts, hnum, hb⟩
  obtain ⟨hlow, rfl⟩ := byte?_eq_some hb
  split
  · rename_i e he
    have hlt := lt_of_ofCode? he
    exact Reader.On.pure ⟨.number num, hstarts, num, b.toNat, rfl, hnum, hlow, by omega⟩
  · exact Reader.On.failUnplaced (by intro h; cases h)

/-- A table of bare names. -/
theorem takes_nameOf {α : Type} (values : List α) (name : α → String) :
    (Reader.variant (values.map fun a => ⟨name a, .bare a⟩)).Takes
      (IsNameOf (values.map name)) := by
  apply Reader.takes_variant
  rw [List.map_map, List.forall₂_map_left_iff, List.forall₂_map_right_iff]
  exact List.forall₂_same.mpr fun a _ => ⟨rfl, .bare a⟩

theorem takes_flag : (Reader.variant flags).Takes (IsNameOf (Flag.all.map Flag.name)) :=
  takes_nameOf Flag.all Flag.name

theorem takes_layer : (Reader.variant layers).Takes (IsNameOf (Layer.all.map Layer.name)) :=
  takes_nameOf Layer.all Layer.name

theorem takes_origin : (Reader.variant origins).Takes (IsNameOf (Origin.all.map Origin.name)) :=
  takes_nameOf Origin.all Origin.name

theorem takes_color : (Reader.record color).Takes IsColor := by
  have hbyte (name : String) : Field.Obeys ⟨name, _, byte, none⟩ ⟨name, IsChannel, true⟩ :=
    ⟨rfl, takes_byte, rfl⟩
  exact Reader.takes_record (.cons (hbyte "r") (.cons (hbyte "g") (.cons (hbyte "b") .nil)))
    (by decide)

/-! ### Calls -/

theorem obeys_ms (name : String) : (msField name).Obeys ⟨name, IsTime, true⟩ :=
  ⟨rfl, takes_ms, rfl⟩

theorem obeys_duration : durationField.Obeys duration := obeys_ms "duration"

theorem obeys_curve : easingField.Obeys curve := ⟨rfl, takes_easing, rfl⟩

theorem obeys_numeric (name : String) : (floatField name).Obeys (numeric name) :=
  ⟨rfl, Reader.takes_float, rfl⟩

theorem obeys_text (name : String) : (textField name).Obeys ⟨name, Tree.IsText, true⟩ :=
  ⟨rfl, Reader.takes_string, rfl⟩

theorem obeys_coloring : colorField.Obeys coloring := ⟨rfl, takes_color, rfl⟩

/-- A call with fields obeys the rules that its fields obey. -/
theorem obeys_callOf {name label : String} {fields : List Field} {build : Values fields → Call}
    {rules : List Rule} (h : List.Forall₂ Field.Obeys fields rules)
    (hnodup : (rules.map Rule.name).Nodup) :
    (callOf name label fields build).Obeys ⟨name, some rules⟩ :=
  ⟨rfl, .record rfl (Field.map_name h ▸ hnodup) h⟩

theorem obeys_bareCall (b : Bracket) : (bareCall b).Obeys ⟨b.name, none⟩ := ⟨rfl, .bare _⟩

theorem obeys_calls : List.Forall₂ Variant.Obeys calls callRules := by
  have hcurve : List.Forall₂ Field.Obeys [easingField] [curve] := .cons obeys_curve .nil
  refine .cons (obeys_callOf (.cons obeys_duration hcurve) (by decide)) ?_
  refine .cons (obeys_callOf (.cons obeys_duration hcurve) (by decide)) ?_
  refine .cons (obeys_callOf (.cons obeys_duration (.cons (obeys_numeric _) hcurve))
    (by decide)) ?_
  refine .cons (obeys_callOf (.cons obeys_duration
    (.cons (obeys_numeric _) (.cons (obeys_numeric _) hcurve))) (by decide)) ?_
  refine .cons (obeys_callOf (.cons obeys_duration (.cons (obeys_numeric _) hcurve))
    (by decide)) ?_
  refine .cons (obeys_callOf (.cons obeys_duration (.cons (obeys_numeric _) hcurve))
    (by decide)) ?_
  refine .cons (obeys_callOf (.cons obeys_duration (.cons obeys_coloring hcurve)) (by decide)) ?_
  refine .cons (obeys_callOf (.cons obeys_duration (.cons ⟨rfl, takes_flag, rfl⟩ hcurve))
    (by decide)) ?_
  refine .cons (obeys_callOf (.cons ⟨rfl, takes_count, rfl⟩ .nil) (by decide)) ?_
  refine .cons (obeys_bareCall .endLoop) ?_
  refine .cons (obeys_bareCall .startBatch) ?_
  refine .cons (obeys_bareCall .endBatch) ?_
  refine .cons (obeys_callOf (.cons obeys_duration .nil) (by decide)) ?_
  refine .cons (obeys_callOf (.cons (obeys_ms "ms") .nil) (by decide)) ?_
  refine .cons (obeys_callOf (.cons (obeys_numeric _) (.cons (obeys_numeric _) .nil))
    (by decide)) ?_
  refine .cons (obeys_callOf (.cons (obeys_numeric _) .nil) (by decide)) ?_
  refine .cons (obeys_callOf (.cons (obeys_numeric _) .nil) (by decide)) ?_
  refine .cons (obeys_callOf (.cons (obeys_numeric _) .nil) (by decide)) ?_
  refine .cons (obeys_callOf (.cons obeys_coloring .nil) (by decide)) ?_
  refine .cons (obeys_callOf (.cons ⟨rfl, takes_layer, rfl⟩ .nil) (by decide)) ?_
  exact .cons (obeys_callOf (.cons (obeys_text _) (.cons ⟨rfl, takes_count, rfl⟩ .nil))
    (by decide)) .nil

theorem obeys_callList : callsField.Obeys callList :=
  ⟨rfl, Reader.takes_list (Reader.takes_variant obeys_calls), rfl⟩

/-! ### Documents -/

theorem takes_effect : (Reader.record effect).Takes IsEffect :=
  Reader.takes_record (.cons (obeys_text _) (.cons obeys_callList .nil)) (by decide)

theorem takes_sprite : (Reader.record sprite).Takes IsSprite :=
  Reader.takes_record
    (.cons (obeys_text _)
      (.cons ⟨rfl, takes_ms, rfl⟩
        (.cons ⟨rfl, takes_origin, rfl⟩
          (.cons ⟨rfl, takes_layer, rfl⟩
            (.cons ⟨rfl, Reader.takes_float, rfl⟩
              (.cons ⟨rfl, Reader.takes_float, rfl⟩ (.cons obeys_callList .nil)))))))
    (by decide)

theorem takes_document : (Reader.record document).Takes IsScript :=
  Reader.takes_record
    (.cons ⟨rfl, Reader.takes_list takes_effect, rfl⟩
      (.cons ⟨rfl, Reader.takes_list takes_sprite, rfl⟩ .nil))
    (by decide)

/-- A text that is read is a tree that keeps the rules; and a text that is not has another
fault than bytes that are no text. -/
theorem on_document (text : String) :
    (Reader.document (Reader.record document)).On text.toList fun _ _ =>
      ∃ v : Tree, Spaced v.tokens text ∧ IsScript v := by
  refine (Reader.on_document takes_document text.toList).mono ?_
  rintro d rest ⟨v, hv, hscript⟩
  exact ⟨v, hv.spaced, hscript⟩

end Script

/-! ### The theorem -/

namespace Document

/-- **Scripts are read strictly.**  A text from which a document is read is that of one JSON
tree and no other, and that tree keeps the rules of scripts.  From a text that is that of no
such tree no document is read, but a fault of the format is reported. -/
theorem read_strict (text : String) :
    (∀ d, Document.read .text (Utf8.encode text) = .ok d →
      ∃ v : Tree, Spaced v.tokens text ∧ Script.IsScript v ∧
        ∀ w : Tree, Spaced w.tokens text → w = v) ∧
    ((∀ v : Tree, Spaced v.tokens text → ¬ Script.IsScript v) →
      ∃ e, Document.read .text (Utf8.encode text) = .error e ∧
        (Failure.serialization (.json e)).kind = .serialization) := by
  have hon := Script.on_document text (.start (Utf8.encode text)) rfl
  rw [Document.read, Reader.runOn]
  cases h : Reader.document (Reader.record Script.document) (.start (Utf8.encode text)) with
  | ok d j =>
    rw [h] at hon
    obtain ⟨-, -, v, hv, hscript⟩ := hon
    exact ⟨fun _ _ => ⟨v, hv, hscript, fun w hw => Tree.eq_of_spaced hw hv⟩,
      fun hnone => absurd hscript (hnone v hv)⟩
  | fail e j => exact ⟨(fun _ hok => by cases hok), fun _ => ⟨_, rfl, rfl⟩⟩

/-- A text with the largest code of a curve is read, and one with a misspelt member is not. -/
theorem read_strict_of_misspelt_member :
    let glowing := "\x7b\"effects\":[\x7b\"calls\":[\x7b\"fade_in\":" ++
      "\x7b\"easing\":34,\"duration\":-5\x7d\x7d],\"name\":\"glow\"\x7d]\x7d"
    let misspelt := "\x7b\"sprite\":[]\x7d"
    (∃ v : Tree, Spaced v.tokens glowing ∧ Script.IsScript v ∧
      ∀ w : Tree, Spaced w.tokens glowing → w = v) ∧
    ∃ e, Document.read .text (Utf8.encode misspelt) = .error e ∧
      (Failure.serialization (.json e)).kind = .serialization := by
  intro glowing misspelt
  have hread : Document.read .text (Utf8.encode glowing) =
      .ok ⟨[⟨"glow", [.act (.animate .fadeIn (.clamp (-5)) .inOutBounce)]⟩], []⟩ := by
    decide +kernel
  -- the tree of the other text, which is no script
  let name : Spelling :=
    [.plain 's' (by decide), .plain 'p' (by decide), .plain 'r' (by decide),
     .plain 'i' (by decide), .plain 't' (by decide), .plain 'e' (by decide)]
  let tree : Tree := .object [(name, .list [])]
  have htree : Spaced tree.tokens misspelt := by
    have hjoin := spaced_join blankText_empty tree.tokens
    have htext : String.join (tree.tokens.map fun t => "" ++ t.written) ++ "" = misspelt := by
      decide +kernel
    rw [htext] at hjoin
    exact hjoin
  have hscript : ¬ Script.IsScript tree := by
    rintro (⟨ms, hms, hstrict⟩ | ⟨items, hitems, -⟩)
    · obtain rfl : [(name, Tree.list [])] = ms := Tree.object.inj hms
      obtain ⟨rule, hrule, hname, -⟩ := hstrict.declared _ List.mem_cons_self
      have hnone : ∀ known ∈ ["effects", "sprites"], name.text? ≠ some known := by
        decide +kernel
      simp only [List.mem_cons, List.not_mem_nil, or_false] at hrule
      obtain rfl | rfl := hrule
      · exact hnone _ (.head _) hname
      · exact hnone _ (.tail _ (.head _)) hname
    · exact Tree.noConfusion hitems
  exact ⟨(read_strict glowing).1 _ hread, (read_strict misspelt).2 fun v hv hkeeps =>
    hscript (Tree.eq_of_spaced hv htree ▸ hkeeps)⟩

end Document

end Storyboard
