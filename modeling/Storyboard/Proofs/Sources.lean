/-
Storyboard/Proofs/Sources.lean

Scripts from streams and from texts.

A script comes from a stream, byte by byte, or from a text held as a whole, and it is read
the same: the tables of scripts have blind readers only (`blind_document`), so the source
decides nothing but the positions of faults (`Document.fromStream_iff_fromText`).
-/
import Storyboard.Proofs.Json.Blind
import Storyboard.Proofs.Strictness

namespace Storyboard

open Json

namespace Script

/-! ### Tables -/

theorem blind_easing : easing.Blind := by
  refine (Reader.blind_integer "u8" byte?).bind fun code => ?_
  split
  · exact Reader.Blind.pure _
  · exact Reader.Blind.failUnplaced _

/-- Names are read without any fields. -/
theorem blind_names {α β : Type} (all : List α) (name : α → String) (value : α → β) :
    (Reader.variant (all.map fun a => ⟨name a, .bare (value a)⟩)).Blind := by
  refine Reader.blind_variant fun v hv => ?_
  obtain ⟨a, -, rfl⟩ := List.mem_map.mp hv
  exact trivial

theorem blindFields_color : Reader.BlindFields colorFields := by
  have hbyte : byte.Blind := Reader.blind_integer _ _
  simp [Reader.BlindFields, colorFields, hbyte]

theorem blindPayload_calls : ∀ v ∈ calls, Reader.BlindPayload v.payload := by
  have hms : ms.Blind := Reader.blind_integer _ _
  have hcount : count.Blind := Reader.blind_integer _ _
  have hcolor : (Reader.record color).Blind := Reader.blind_record blindFields_color
  have hflag : (Reader.variant flags).Blind := blind_names Flag.all Flag.name id
  have hlayer : (Reader.variant layers).Blind := blind_names Layer.all Layer.name id
  simp [calls, callOf, bareCall, Reader.BlindPayload, Reader.BlindFields, durationField,
    msField, floatField, easingField, colorField, textField, hms, hcount, hcolor, hflag, hlayer,
    blind_easing, Reader.blind_float, Reader.blind_string]

theorem blind_callList : (Reader.list (Reader.variant calls)).Blind :=
  Reader.blind_list (Reader.blind_variant blindPayload_calls)

theorem blind_effect : (Reader.record effect).Blind := by
  apply Reader.blind_record
  simp [Reader.BlindFields, effect, textField, callsField, Reader.blind_string, blind_callList]

theorem blind_sprite : (Reader.record sprite).Blind := by
  have hms : ms.Blind := Reader.blind_integer _ _
  have horigin : (Reader.variant origins).Blind := blind_names Origin.all Origin.name id
  have hlayer : (Reader.variant layers).Blind := blind_names Layer.all Layer.name id
  apply Reader.blind_record
  simp [Reader.BlindFields, sprite, textField, callsField, hms, horigin, hlayer,
    Reader.blind_string, Reader.blind_float, blind_callList]

theorem blind_document : (Reader.record document).Blind := by
  apply Reader.blind_record
  simp [Reader.BlindFields, document, Reader.blind_list, blind_effect, blind_sprite]

end Script

/-! ### The theorem -/

namespace Document

/-- From a text the bytes of a string never fail to make sense. -/
theorem fault_ne_invalidUtf8 {text : String} {e : Located}
    (h : Document.read .text (Utf8.encode text) = .error e) : e.fault ≠ .invalidUtf8 := by
  have hon := Script.on_document text (.start (Utf8.encode text)) rfl
  rw [Document.read, Reader.runOn] at h
  generalize Reader.document (Reader.record Script.document) (.start (Utf8.encode text)) = x
    at h hon
  cases x with
  | ok d j => cases h
  | fail error j =>
    cases h
    exact hon

/-- **A stream and a text are read alike.**  From the bytes of a text the same document is
read as from the text itself.  If none is read, then both report that the text is no script,
for the same reason, and none of them that its bytes are no text; only the positions may
differ. -/
theorem fromStream_iff_fromText (text : String) :
    (∀ d, fromStream (Utf8.encode text) = .ok d ↔ fromText text = .ok d) ∧
    ((∃ d, fromStream (Utf8.encode text) = .ok d ∧ fromText text = .ok d) ∨
      ∃ e e' : Located,
        fromStream (Utf8.encode text) = .error (.serialization (.json e)) ∧
        fromText text = .error (.serialization (.json e')) ∧
        "parse script JSON: ".toList <+: (FormatFault.json e).message.toList ∧
        "parse script JSON: ".toList <+: (FormatFault.json e').message.toList ∧
        e.fault = e'.fault ∧ e.fault ≠ .invalidUtf8 ∧
        e.position?.isSome = e'.position?.isSome) := by
  have hprefix (e : Located) :
      "parse script JSON: ".toList <+: (FormatFault.json e).message.toList :=
    ⟨e.message.toList, String.toList_append.symm⟩
  obtain ⟨d, hstream, htext⟩ | ⟨e, e', hstream, htext, hfault, hposition⟩ :=
    Reader.runOn_of_blind Script.blind_document (Utf8.encode text)
  · have hstream : fromStream (Utf8.encode text) = .ok d := by
      rw [fromStream, Document.read, hstream]
      rfl
    have htext : fromText text = .ok d := by
      rw [fromText, Document.read, htext]
      rfl
    refine ⟨fun d' => ?_, .inl ⟨d, hstream, htext⟩⟩
    rw [hstream, htext]
  · have hvalid := fault_ne_invalidUtf8 htext
    have hstream : fromStream (Utf8.encode text) = .error (.serialization (.json e)) := by
      rw [fromStream, Document.read, hstream]
      rfl
    have htext : fromText text = .error (.serialization (.json e')) := by
      rw [fromText, Document.read, htext]
      rfl
    refine ⟨fun d => ?_, .inr ⟨e, e', hstream, htext, hprefix e, hprefix e', hfault,
      hfault ▸ hvalid, hposition⟩⟩
    rw [hstream, htext]
    constructor <;> rintro ⟨⟩

/-- A stream has been looked at further when an unknown member is found. -/
example :
    let text := "\x7b\"a\":1\x7d"
    fromStream (Utf8.encode text) ≠ fromText text := by
  decide +kernel

end Document

end Storyboard
