/-
Storyboard/Proofs/RoundTrip.lean

Scripts read back from their JSON.

What `toJson` writes for a document is the form of it that has all members in the order
of the tables, so it is read as every form is (`Script.reads_documentForm`).  The result is
`read_spaced_toJson`: a document is read back from its JSON text with any white space
between the tokens.
-/
import Storyboard.Proofs.ScriptForms

namespace Storyboard

open Json

theorem Script.reads_document {d : Document} (h : ∀ x ∈ d.numbers, ReadsBack x) :
    Reads (Reader.record document) d d.toJson :=
  reads_documentForm d.form_toJson h

/-! ### The round trip -/

namespace Document

/-- A document whose doubles are read back from their own texts is read back from
its JSON, whatever white space there is between the tokens. -/
theorem read_spaced_toJson {d : Document} {text : String} (h : ∀ x ∈ d.numbers, ReadsBack x)
    (htext : Spaced d.toJson.tokens text) (source : Source) :
    Document.read source (Utf8.encode text) = .ok d :=
  (Script.reads_document h).runOn_spaced htext source

/-- Names with quotes, backslashes and control characters, a time at its lower bound
and a negative number, with blank lines and tabs between the tokens. -/
theorem read_spaced_toJson_of_escapes :
    let x := Binary64.ofRatio true 1 2
    let fx : EffectScript :=
      { name := "\"a\" \\ é\n",
        calls := [.act (.animate (.towards (.position x x)) (.clamp (-0x8000000000000000)) .inSine),
          .act (.bracket .endLoop)] }
    let s : SpriteScript :=
      { placement := { image := "\x01\t.png", x, y := x },
        calls := [.applyEffect "\"a\" \\ é\n" 0xffffffff, .setLayer .overlay] }
    let d : Document := { effects := [fx], sprites := [s, s] }
    let text := String.join (d.toJson.tokens.map fun t => "\n\n\t" ++ t.written) ++ "\n\n\t"
    Document.read .text (Utf8.encode text) = .ok d := by
  intro x fx s d text
  have hx : ReadsBack x := by
    have htext : x.jsonText = "-0.5" := by decide +kernel
    have hread : Reader.runOn Reader.float .text (Utf8.encode "-0.5") =
        .ok (signed true (scaleDown (.ofNat 5) 1)) := by rfl
    have hscaled : scaleDown (.ofNat 5) 1 = (Binary64.ofNat 5).div (.tenPow 1) := by
      rw [scaleDown, if_pos (by decide)]
    have hvalue : signed true ((Binary64.ofNat 5).div (.tenPow 1)) = x := by decide +kernel
    rw [ReadsBack, htext, hread, hscaled, hvalue]
  have hnumbers : ∀ y ∈ d.numbers, ReadsBack y := by
    have hall : d.numbers = List.replicate 6 x := rfl
    rw [hall]
    intro y hy
    rw [List.eq_of_mem_replicate hy]
    exact hx
  have hblank : BlankText "\n\n\t" := by
    intro c hc
    have hchars : "\n\n\t".toList = ['\n', '\n', '\t'] := rfl
    rw [hchars] at hc
    simp only [List.mem_cons, List.not_mem_nil, or_false] at hc
    obtain rfl | rfl | rfl := hc
    · exact .inr (.inl rfl)
    · exact .inr (.inl rfl)
    · exact .inr (.inr (.inl rfl))
  exact read_spaced_toJson hnumbers (spaced_join hblank _) .text

end Document

end Storyboard
