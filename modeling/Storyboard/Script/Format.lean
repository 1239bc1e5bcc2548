/-
Storyboard/Script/Format.lean

The tables by which scripts are read.

For each record type of a script its fields with their defaults, and for calls
and names their alternatives.  Nothing else decides what a script may contain:
the readers of `Storyboard.Json.Shape` do the rest.
-/
import Storyboard.Failure
import Storyboard.Json.Shape

namespace Storyboard

namespace Script

open Json

/-! ### Scalars -/

/-- A number that fits one byte. -/
def byte? (i : Int) : Option UInt8 :=
  if 0 ≤ i ∧ i < 0x100 then some (.ofNat i.toNat) else none

/-- A count that fits 32 bits. -/
def count? (i : Int) : Option UInt32 :=
  if 0 ≤ i ∧ i < 0x100000000 then some (.ofNat i.toNat) else none

/-- A time. -/
def ms : Reader Ms := Reader.integer "i64" Ms.ofInt?

/-- A repeat count. -/
def count : Reader UInt32 := Reader.integer "u32" count?

/-- A channel of a color. -/
def byte : Reader UInt8 := Reader.integer "u8" byte?

/-- An easing curve, by its code. -/
def easing : Reader Easing := do
  let code ← byte
  match Easing.ofCode? code.toNat with
  | some e => pure e
  | none => Reader.failUnplaced (.refused (Easing.unknownCode code.toNat))

/-! ### Names -/

/-- The anchor points. -/
def origins : List (Variant Origin) := Origin.all.map fun o => ⟨o.name, .bare o⟩

/-- The layers. -/
def layers : List (Variant Layer) := Layer.all.map fun l => ⟨l.name, .bare l⟩

/-- The render flags. -/
def flags : List (Variant Flag) := Flag.all.map fun f => ⟨f.name, .bare f⟩

/-! ### Fields -/

/-- The fields of a color. -/
def colorFields : List Field :=
  [⟨"r", _, byte, none⟩, ⟨"g", _, byte, none⟩, ⟨"b", _, byte, none⟩]

/-- A color: the one record that may have members of its own. -/
def color : Shape Rgb where
  label := "struct Rgb"
  fields := colorFields
  build := fun ((r, g, b, _) : UInt8 × UInt8 × UInt8 × Unit) => ⟨r, g, b⟩
  lenient := true

/-- A time that has to be given. -/
def msField (name : String) : Field := ⟨name, _, ms, none⟩

/-- A number that has to be given. -/
def floatField (name : String) : Field := ⟨name, _, Reader.float, none⟩

/-- A text that has to be given. -/
def textField (name : String) : Field := ⟨name, _, Reader.string, none⟩

/-- A color that has to be given. -/
def colorField : Field := ⟨"color", _, Reader.record color, none⟩

/-- How long a call takes. -/
def durationField : Field := msField "duration"

/-- The curve of an animation. -/
def easingField : Field := ⟨"easing", _, easing, some .linear⟩

/-! ### Calls -/

/-- A call with fields. -/
def callOf (name label : String) (fields : List Field) (build : Values fields → Call) :
    Variant Call :=
  ⟨name, .record { label := "struct variant Call::" ++ label, fields, build }⟩

/-- A call without fields. -/
def bareCall (b : Bracket) : Variant Call := ⟨b.name, .bare (.act (.bracket b))⟩

/-- The calls of a script. -/
def calls : List (Variant Call) :=
  [callOf "fade_in" "FadeIn" [durationField, easingField]
    fun ((d, e, _) : Ms × Easing × Unit) => .act (.animate .fadeIn d e),
   callOf "fade_out" "FadeOut" [durationField, easingField]
    fun ((d, e, _) : Ms × Easing × Unit) => .act (.animate .fadeOut d e),
   callOf "fade" "Fade" [durationField, floatField "transparency", easingField]
    fun ((d, t, e, _) : Ms × Binary64 × Easing × Unit) =>
      .act (.animate (.towards (.transparency t)) d e),
   callOf "move_to" "MoveTo" [durationField, floatField "x", floatField "y", easingField]
    fun ((d, x, y, e, _) : Ms × Binary64 × Binary64 × Easing × Unit) =>
      .act (.animate (.towards (.position x y)) d e),
   callOf "resize" "Resize" [durationField, floatField "size", easingField]
    fun ((d, s, e, _) : Ms × Binary64 × Easing × Unit) =>
      .act (.animate (.towards (.size s)) d e),
   callOf "rotate" "Rotate" [durationField, floatField "rotation", easingField]
    fun ((d, r, e, _) : Ms × Binary64 × Easing × Unit) =>
      .act (.animate (.towards (.rotation r)) d e),
   callOf "color" "Color" [durationField, colorField, easingField]
    fun ((d, c, e, _) : Ms × Rgb × Easing × Unit) =>
      .act (.animate (.towards (.color c)) d e),
   callOf "parameter" "Parameter"
    [durationField, ⟨"flag", _, Reader.variant flags, none⟩, easingField]
    fun ((d, f, e, _) : Ms × Flag × Easing × Unit) => .act (.animate (.parameter f) d e),
   callOf "start_loop" "StartLoop" [⟨"count", _, count, none⟩]
    fun ((n, _) : UInt32 × Unit) => .act (.bracket (.startLoop n)),
   bareCall .endLoop,
   bareCall .startBatch,
   bareCall .endBatch,
   callOf "sleep" "Sleep" [durationField]
    fun ((d, _) : Ms × Unit) => .act (.sleep d),
   callOf "set_time" "SetTime" [msField "ms"]
    fun ((t, _) : Ms × Unit) => .act (.setTime t),
   callOf "set_position" "SetPosition" [floatField "x", floatField "y"]
    fun ((x, y, _) : Binary64 × Binary64 × Unit) => .act (.assign (.position x y)),
   callOf "set_size" "SetSize" [floatField "size"]
    fun ((s, _) : Binary64 × Unit) => .act (.assign (.size s)),
   callOf "set_transparency" "SetTransparency" [floatField "transparency"]
    fun ((t, _) : Binary64 × Unit) => .act (.assign (.transparency t)),
   callOf "set_rotation" "SetRotation" [floatField "rotation"]
    fun ((r, _) : Binary64 × Unit) => .act (.assign (.rotation r)),
   callOf "set_color" "SetColor" [colorField]
    fun ((c, _) : Rgb × Unit) => .act (.assign (.color c)),
   callOf "set_layer" "SetLayer" [⟨"layer", _, Reader.variant layers, none⟩]
    fun ((l, _) : Layer × Unit) => .setLayer l,
   callOf "apply_effect" "ApplyEffect" [textField "effect", ⟨"count", _, count, some 1⟩]
    fun ((e, n, _) : String × UInt32 × Unit) => .applyEffect e n]

/-- The calls of an effect or sprite. -/
def callsField : Field := ⟨"calls", _, Reader.list (Reader.variant calls), some []⟩

/-! ### Documents -/

/-- A named effect. -/
def effect : Shape EffectScript where
  label := "struct EffectDef"
  fields := [textField "name", callsField]
  build := fun ((name, calls, _) : String × List Call × Unit) => ⟨name, calls⟩

/-- A sprite. -/
def sprite : Shape SpriteScript where
  label := "struct SpriteDef"
  fields :=
    [textField "image",
     ⟨"start_ms", _, ms, some 0⟩,
     ⟨"origin", _, Reader.variant origins, some .centre⟩,
     ⟨"layer", _, Reader.variant layers, some .background⟩,
     ⟨"x", _, Reader.float, some Pose.centreX⟩,
     ⟨"y", _, Reader.float, some Pose.centreY⟩,
     callsField]
  build := fun ((image, startMs, origin, layer, x, y, calls, _) :
      String × Ms × Origin × Layer × Binary64 × Binary64 × List Call × Unit) =>
    ⟨⟨image, startMs, origin, layer, x, y⟩, calls⟩

/-- A script. -/
def document : Shape Document where
  label := "struct ScriptDoc"
  fields :=
    [⟨"effects", _, Reader.list (Reader.record effect), some []⟩,
     ⟨"sprites", _, Reader.list (Reader.record sprite), some []⟩]
  build := fun ((effects, sprites, _) : List EffectScript × List SpriteScript × Unit) =>
    ⟨effects, sprites⟩

end Script

namespace Document

/-- Read a script from bytes that come from a text or a stream. -/
def read (source : Json.Source) (bytes : List UInt8) : Except Json.Located Document :=
  Json.Reader.runOn (Json.Reader.record Script.document) source bytes

/-- Read a script from a stream. -/
def fromStream (bytes : List UInt8) : Except Failure Document :=
  (read .stream bytes).mapError fun e => .serialization (.json e)

/-- Read a script from a text. -/
def fromText (text : String) : Except Failure Document :=
  (read .text (Utf8.encode text)).mapError fun e => .serialization (.json e)

end Document

end Storyboard
