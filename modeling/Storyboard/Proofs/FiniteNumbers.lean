/-
Storyboard/Proofs/FiniteNumbers.lean

Every number of a script that was read is finite.

A JSON text has no way to write infinity, and a number too large is refused, so
what the reader of numbers answers is finite (`isFinite_of_number`).  The tables
carry this over to calls, sprites and documents: the numbers of a call are those
that its fields have read, and the defaults are finite.

The result is `finite_of_read`; `finite_merge` says the same of documents that are
merged.
-/
import Storyboard.Proofs.Json.Answers
import Storyboard.Proofs.Number.Rounding
import Storyboard.Proofs.RoundTrip

namespace Storyboard

open Json

/-- None of these numbers is infinite or no number at all. -/
def AllFinite (xs : List Binary64) : Prop := ∀ x ∈ xs, x.isFinite = true

namespace AllFinite

theorem nil : AllFinite [] := fun _ hx => absurd hx List.not_mem_nil

theorem cons {x : Binary64} {xs : List Binary64} (hx : x.isFinite = true) (h : AllFinite xs) :
    AllFinite (x :: xs) := by
  intro y hy
  rcases List.mem_cons.mp hy with rfl | hy
  · exact hx
  · exact h y hy

theorem singleton {x : Binary64} (hx : x.isFinite = true) : AllFinite [x] := cons hx nil

theorem flatMap {α : Type} {f : α → List Binary64} {as : List α} (h : ∀ a ∈ as, AllFinite (f a)) :
    AllFinite (as.flatMap f) := by
  intro x hx
  obtain ⟨a, ha, hx⟩ := List.mem_flatMap.mp hx
  exact h a ha x hx

theorem append {xs ys : List Binary64} (hxs : AllFinite xs) (hys : AllFinite ys) :
    AllFinite (xs ++ ys) := by
  intro x hx
  rcases List.mem_append.mp hx with hx | hx
  · exact hxs x hx
  · exact hys x hx

end AllFinite

theorem Binary64.isFinite_ofNat {n : Nat} (h : n ≤ 2 ^ 64) : (ofNat n).isFinite = true :=
  (moderate_ofRatio false h).isFinite

/-! ### Numbers as they are read -/

namespace Json

/-- Digits are added only while the bound allows it. -/
theorem absorb_le {bound : Nat} (digits : List UInt8) {n : Nat} (hn : n ≤ bound) :
    (absorb bound n digits).1 ≤ bound := by
  induction digits generalizing n with
  | nil => exact hn
  | cons d rest ih =>
    rw [absorb]
    split
    · rename_i hfits
      exact ih hfits
    · exact hn

theorem isFinite_toFloat_ofWhole (negative : Bool) {n : Nat} (hn : n ≤ maxSignificand) :
    (Number.ofWhole negative n).toFloat.isFinite = true := by
  have hbound : n ≤ 2 ^ 64 := Nat.le_trans hn (by decide)
  rw [Number.ofWhole]
  split
  · exact Binary64.isFinite_ofNat hbound
  split
  · show (Binary64.ofRatio true (-(n : Int)).natAbs 1).isFinite = true
    rw [Int.natAbs_neg, Int.natAbs_natCast]
    exact (Binary64.moderate_ofRatio true hbound).isFinite
  · exact (Binary64.moderate_ofRatio true hbound).isFinite

namespace Reader

theorem isFinite_of_assemble {negative : Bool} {significand : Nat} {exponent : Int} {n : Number}
    (hsignificand : significand ≤ maxSignificand)
    (h : (assemble negative significand exponent).Answers n) : n.toFloat.isFinite = true := by
  rw [assemble] at h
  split at h
  · rename_i x hx
    obtain rfl := answers_pure h
    show (signed negative x).isFinite = true
    rw [isFinite_signed]
    exact finite_fromParts hsignificand hx
  · exact absurd h ((fails_failHere _).not_answers n)

theorem isFinite_of_withExponent {negative : Bool} {significand : Nat} {shift : Int} {n : Number}
    (hsignificand : significand ≤ maxSignificand)
    (h : (withExponent negative significand shift).Answers n) : n.toFloat.isFinite = true := by
  obtain ⟨down, h⟩ := answers_of_bind h
  obtain ⟨first, h⟩ := answers_of_bind h
  obtain ⟨rest, h⟩ := answers_of_bind h
  split at h
  · obtain ⟨_, h⟩ := answers_of_bind h
    obtain ⟨_, h⟩ := answers_of_bind h
    exact isFinite_of_assemble hsignificand h
  · -- an exponent beyond all bounds leaves nothing but zero
    split at h
    · obtain ⟨_, h⟩ := answers_of_bind h
      exact absurd h ((fails_failHere _).not_answers n)
    · obtain ⟨_, h⟩ := answers_of_bind h
      obtain ⟨_, h⟩ := answers_of_bind h
      obtain rfl := answers_pure h
      show (signed negative (.ofNat 0)).isFinite = true
      rw [isFinite_signed]
      exact Binary64.isFinite_ofNat (Nat.zero_le _)

theorem isFinite_of_afterSignificand {negative : Bool} {significand : Nat} {shift : Int}
    {n : Number} (hsignificand : significand ≤ maxSignificand)
    (h : (afterSignificand negative significand shift).Answers n) :
    n.toFloat.isFinite = true := by
  obtain ⟨b?, h⟩ := answers_of_bind h
  split at h
  · split at h
    · obtain ⟨_, h⟩ := answers_of_bind h
      exact isFinite_of_withExponent hsignificand h
    · exact isFinite_of_assemble hsignificand h
  · exact isFinite_of_assemble hsignificand h

theorem isFinite_of_withFraction {negative : Bool} {significand : Nat} {shift : Int} {n : Number}
    (hsignificand : significand ≤ maxSignificand)
    (h : (withFraction negative significand shift).Answers n) : n.toFloat.isFinite = true := by
  obtain ⟨fraction, h⟩ := answers_of_bind h
  split at h
  · obtain ⟨b?, h⟩ := answers_of_bind h
    split at h
    · exact absurd h ((fails_failNext _).not_answers n)
    · exact absurd h ((fails_failNext _).not_answers n)
  · exact isFinite_of_afterSignificand (absorb_le fraction hsignificand) h

theorem isFinite_of_ending {negative : Bool} {significand : Nat} {beyond : List UInt8} {n : Number}
    (hsignificand : significand ≤ maxSignificand)
    (h : (numberRest.ending negative significand beyond).Answers n) :
    n.toFloat.isFinite = true := by
  rw [numberRest.ending] at h
  split at h
  · obtain rfl := answers_pure h
    exact isFinite_toFloat_ofWhole negative hsignificand
  · exact isFinite_of_assemble hsignificand h

theorem isFinite_of_numberRest {negative : Bool} {n : Number}
    (h : (numberRest negative).Answers n) : n.toFloat.isFinite = true := by
  obtain ⟨whole, h⟩ := answers_of_bind h
  have hsignificand : (absorb maxSignificand 0 whole).1 ≤ maxSignificand :=
    absorb_le whole (Nat.zero_le _)
  obtain ⟨b?, h⟩ := answers_of_bind h
  split at h
  · split at h
    · obtain ⟨_, h⟩ := answers_of_bind h
      exact isFinite_of_withFraction hsignificand h
    split at h
    · obtain ⟨_, h⟩ := answers_of_bind h
      exact isFinite_of_withExponent hsignificand h
    · exact isFinite_of_ending hsignificand h
  · exact isFinite_of_ending hsignificand h

theorem isFinite_of_number {first : UInt8} {n : Number} (h : (number first).Answers n) :
    n.toFloat.isFinite = true := by
  rw [number] at h
  split at h
  · obtain ⟨_, h⟩ := answers_of_bind h
    exact isFinite_of_numberRest h
  · exact isFinite_of_numberRest h

theorem isFinite_of_float {x : Binary64} (h : float.Answers x) : x.isFinite = true := by
  obtain ⟨first, n, hn, hx⟩ := answers_numberAs h
  obtain rfl := answers_pure hx
  exact isFinite_of_number hn

end Reader

end Json

/-! ### Calls -/

namespace Script

/-- The calls of an entry of the table have finite numbers only. -/
def FiniteEntry (v : Variant Call) : Prop := ∀ c, v.payload.Makes c → AllFinite c.numbers

theorem finiteEntry_bareCall (b : Bracket) : FiniteEntry (bareCall b) := by
  rintro c rfl
  exact .nil

section CallOf

variable {name label : String} {fields : List Field} {build : Values fields → Call}

/-- It is enough to look at the values that the fields make. -/
theorem finiteEntry_callOf
    (h : ∀ values, Values.Made fields values → AllFinite (build values).numbers) :
    FiniteEntry (callOf name label fields build) := by
  rintro c ⟨values, hvalues, rfl⟩
  exact h values hvalues

/-- A call whose fields hold no doubles. -/
theorem finiteEntry_of_no_numbers (h : ∀ values, (build values).numbers = []) :
    FiniteEntry (callOf name label fields build) := by
  apply finiteEntry_callOf
  intro values _
  rw [h values]
  exact .nil

end CallOf

theorem isFinite_of_floatField {name : String} {x : Binary64} (h : (floatField name).Makes x) :
    x.isFinite = true := by
  rcases h with hdefault | hread
  · cases hdefault
  · exact Reader.isFinite_of_float hread

/-- The calls of a script have finite numbers only. -/
theorem finiteEntry_calls : ∀ v ∈ calls, FiniteEntry v := by
  have hnumber {name label : String} (make : Binary64 → Setting)
      (hmake : ∀ {x : Binary64}, x.isFinite = true → AllFinite (make x).numbers) (channel : String) :
      FiniteEntry (callOf name label [durationField, floatField channel, easingField]
        fun ((d, x, e, _) : Ms × Binary64 × Easing × Unit) =>
          .act (.animate (.towards (make x)) d e)) := by
    apply finiteEntry_callOf
    rintro ⟨d, x, e, _⟩ ⟨-, hx, -⟩
    exact hmake (isFinite_of_floatField hx)
  have hassigned {name label : String} (make : Binary64 → Setting)
      (hmake : ∀ {x : Binary64}, x.isFinite = true → AllFinite (make x).numbers) (channel : String) :
      FiniteEntry (callOf name label [floatField channel]
        fun ((x, _) : Binary64 × Unit) => .act (.assign (make x))) := by
    apply finiteEntry_callOf
    rintro ⟨x, _⟩ ⟨hx, -⟩
    exact hmake (isFinite_of_floatField hx)
  simp only [calls, List.forall_mem_cons]
  refine ⟨finiteEntry_of_no_numbers fun _ => rfl, finiteEntry_of_no_numbers fun _ => rfl,
    hnumber .transparency AllFinite.singleton _, ?move, hnumber .size AllFinite.singleton _,
    hnumber .rotation AllFinite.singleton _, finiteEntry_of_no_numbers fun _ => rfl,
    finiteEntry_of_no_numbers fun _ => rfl, finiteEntry_of_no_numbers fun _ => rfl,
    finiteEntry_bareCall _, finiteEntry_bareCall _, finiteEntry_bareCall _,
    finiteEntry_of_no_numbers fun _ => rfl, finiteEntry_of_no_numbers fun _ => rfl, ?position,
    hassigned .size AllFinite.singleton _, hassigned .transparency AllFinite.singleton _,
    hassigned .rotation AllFinite.singleton _, finiteEntry_of_no_numbers fun _ => rfl,
    finiteEntry_of_no_numbers fun _ => rfl, finiteEntry_of_no_numbers fun _ => rfl, ?_⟩
  case move =>
    apply finiteEntry_callOf
    rintro ⟨d, x, y, e, _⟩ ⟨-, hx, hy, -⟩
    exact .cons (isFinite_of_floatField hx) (.singleton (isFinite_of_floatField hy))
  case position =>
    apply finiteEntry_callOf
    rintro ⟨x, y, _⟩ ⟨hx, hy, -⟩
    exact .cons (isFinite_of_floatField hx) (.singleton (isFinite_of_floatField hy))
  exact fun _ hv => absurd hv List.not_mem_nil

theorem finite_of_call {c : Call} (h : (Reader.variant calls).Answers c) : AllFinite c.numbers := by
  obtain ⟨v, hv, hc⟩ := Reader.answers_variant h
  exact finiteEntry_calls v hv c hc

/-! ### Documents -/

/-- The elements of a list that may be left out. -/
theorem answers_of_listField {α : Type} {name : String} {element : Reader α} {as : List α}
    (h : Field.Makes ⟨name, _, Reader.list element, some []⟩ as) :
    ∀ a ∈ as, element.Answers a := by
  rcases h with hdefault | hread
  · obtain rfl := Option.some.inj hdefault
    exact fun _ ha => absurd ha List.not_mem_nil
  · exact Reader.answers_list hread

theorem finite_of_calls {calls : List Call} (h : callsField.Makes calls) :
    AllFinite (calls.flatMap Call.numbers) :=
  .flatMap fun c hc => finite_of_call (answers_of_listField h c hc)

theorem finite_of_effect {e : EffectScript} (h : (Reader.record effect).Answers e) :
    AllFinite (e.calls.flatMap Call.numbers) := by
  obtain ⟨⟨name, calls, _⟩, ⟨-, hcalls, -⟩, rfl⟩ := Reader.answers_record h
  exact finite_of_calls hcalls

theorem finite_of_sprite {s : SpriteScript} (h : (Reader.record sprite).Answers s) :
    AllFinite s.numbers := by
  obtain ⟨⟨image, startMs, origin, layer, x, y, calls, _⟩, ⟨-, -, -, -, hx, hy, hcalls, -⟩, rfl⟩ :=
    Reader.answers_record h
  -- a coordinate that is left out is that of the centre
  have hcoordinate {name : String} {centre : Nat} (hcentre : centre ≤ 2 ^ 64) {x : Binary64}
      (hx : Field.Makes ⟨name, _, Reader.float, some (.ofNat centre)⟩ x) : x.isFinite = true := by
    rcases hx with hdefault | hread
    · obtain rfl := Option.some.inj hdefault
      exact Binary64.isFinite_ofNat hcentre
    · exact Reader.isFinite_of_float hread
  exact .cons (hcoordinate (by decide) hx)
    (.cons (hcoordinate (by decide) hy) (finite_of_calls hcalls))

end Script

namespace Document

/-- Every number of a document that was read is finite. -/
theorem finite_of_read {source : Source} {bytes : List UInt8} {d : Document}
    (h : read source bytes = .ok d) : AllFinite d.numbers := by
  obtain ⟨⟨effects, sprites, _⟩, ⟨heffects, hsprites, -⟩, rfl⟩ :=
    Reader.answers_record (Reader.answers_of_runOn h)
  apply AllFinite.append
  · exact .flatMap fun e he => Script.finite_of_effect (Script.answers_of_listField heffects e he)
  · exact .flatMap fun s hs => Script.finite_of_sprite (Script.answers_of_listField hsprites s hs)

theorem finite_merge {docs : List Document} (h : ∀ d ∈ docs, AllFinite d.numbers) :
    AllFinite (merge docs).numbers := by
  apply AllFinite.append
  · apply AllFinite.flatMap
    intro e he
    obtain ⟨d, hd, he⟩ := List.mem_flatMap.mp he
    exact fun x hx => h d hd x (List.mem_append_left _ (List.mem_flatMap.mpr ⟨e, he, hx⟩))
  · apply AllFinite.flatMap
    intro s hs
    obtain ⟨d, hd, hs⟩ := List.mem_flatMap.mp hs
    exact fun x hx => h d hd x (List.mem_append_right _ (List.mem_flatMap.mpr ⟨s, hs, hx⟩))

end Document

end Storyboard
