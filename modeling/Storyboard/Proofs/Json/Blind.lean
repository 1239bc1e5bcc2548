/-
Storyboard/Proofs/Json/Blind.lean

No reader sees more than the bytes.

Strings are read in two ways that agree (`Storyboard.Proofs.Json.Bytewise`), and everything
else is read in one way that asks for nothing but bytes.  So every reader is blind, from
punctuation and numbers to records and alternatives, whose fields have to be read blindly.
-/
import Storyboard.Json.Shape
import Storyboard.Proofs.Json.Bytewise

namespace Storyboard

namespace Json

namespace Reader

variable {α β : Type}

/-- A reader of one byte or none, and what is made of either. -/
theorem Blind.bind_option {r : Reader (Option β)} {f : Option β → Reader α} (hr : Blind r)
    (hnone : Blind (f none)) (hsome : ∀ b, Blind (f (some b))) : Blind (r >>= f) := by
  refine hr.bind fun b? => ?_
  cases b? with
  | none => exact hnone
  | some b => exact hsome b

theorem Blind.skip_bind {r : Reader α} (n : Nat) (hr : Blind r) :
    Blind (skip n >>= fun _ => r) := (blind_skip n).bind fun _ => hr

/-! ### Punctuation and words -/

theorem blind_token : Blind token := (blind_run isBlank).bind fun _ => blind_peek

theorem blind_separator : Blind separator := by
  refine blind_token.bind_option (Blind.failNext _) fun b => ?_
  exact (blind_skip 1).ite (Blind.failNext _)

theorem blind_wordRest (word : List UInt8) : Blind (wordRest word) := by
  induction word with
  | nil => exact Blind.pure ()
  | cons expected rest ih =>
    exact blind_next.bind_option (Blind.failHere _) fun b => ih.ite (Blind.failHere _)

theorem blind_endObject : Blind endObject := by
  refine blind_token.bind_option (Blind.failNext _) fun b => ?_
  exact (blind_skip 1).ite ((Blind.failNext _).ite (Blind.failNext _))

theorem blind_endList : Blind endList := by
  refine blind_token.bind_option (Blind.failNext _) fun b => ?_
  refine (blind_skip 1).ite (Blind.ite (Blind.skip_bind 1 ?_) (Blind.failNext _))
  exact blind_token.bind_option (Blind.failNext _) fun c =>
    (Blind.failNext _).ite (Blind.failNext _)

theorem blind_nextElement (first : Bool) : Blind (nextElement first) := by
  refine blind_token.bind_option (Blind.failNext _) fun b => ?_
  refine (Blind.pure _).ite ((Blind.pure _).ite (Blind.ite (Blind.skip_bind 1 ?_)
    (Blind.failNext _)))
  exact blind_token.bind_option (Blind.failNext _) fun c => (Blind.failNext _).ite (Blind.pure _)

theorem blind_nextMember (first : Bool) : Blind (nextMember first) := by
  have hname (b : UInt8) : Blind (nextMember.name b) :=
    (Blind.skip_bind 1 (Blind.pure _)).ite (Blind.failNext _)
  refine blind_token.bind_option (Blind.failNext _) fun b => ?_
  refine (Blind.pure _).ite ((hname b).ite (Blind.ite (Blind.skip_bind 1 ?_)
    (Blind.failNext _)))
  exact blind_token.bind_option (Blind.failNext _) fun c => (Blind.failNext _).ite (hname c)

/-! ### Numbers -/

theorem blind_digits : Blind digits :=
  (blind_run isDigit).bind fun found => blind_peek.bind fun _ => Blind.pure found

theorem blind_digitsAhead : Blind digitsAhead := by
  intro bytes i j hi hj
  rw [digitsAhead, digitsAhead, hi, hj]
  exact .ok (hi.trans hj.symm) (hi ▸ List.suffix_refl bytes)

theorem blind_wholeDigits : Blind wholeDigits := by
  refine blind_next.bind_option (Blind.failHere _) fun b => (Blind.failHere _).ite (Blind.ite ?_ ?_)
  · exact blind_peek.bind_option (Blind.pure _) fun c => (Blind.failNext _).ite (Blind.pure _)
  · exact blind_digits.bind fun rest => Blind.pure _

theorem blind_assemble (negative : Bool) (significand : Nat) (exponent : Int) :
    Blind (assemble negative significand exponent) := by
  rw [assemble]
  cases fromParts significand exponent with
  | none => exact Blind.failHere _
  | some x => exact Blind.pure _

theorem blind_exponentSign : Blind exponentSign := by
  refine blind_peek.bind_option (Blind.pure _) fun b => ?_
  exact (Blind.skip_bind 1 (Blind.pure _)).ite
    ((Blind.skip_bind 1 (Blind.pure _)).ite (Blind.pure _))

theorem blind_exponentDigit : Blind exponentDigit :=
  blind_next.bind_option (Blind.failHere _) fun b => (Blind.pure b).ite (Blind.failHere _)

theorem blind_withExponent (negative : Bool) (significand : Nat) (shift : Int) :
    Blind (withExponent negative significand shift) := by
  refine blind_exponentSign.bind fun down => blind_exponentDigit.bind fun first =>
    blind_digitsAhead.bind fun rest => ?_
  split
  · exact Blind.skip_bind _ (blind_peek.bind fun _ => blind_assemble _ _ _)
  · refine Blind.ite (Blind.skip_bind _ (Blind.failHere _)) (Blind.skip_bind _ ?_)
    exact blind_peek.bind fun _ => Blind.pure _

theorem blind_afterSignificand (negative : Bool) (significand : Nat) (shift : Int) :
    Blind (afterSignificand negative significand shift) := by
  refine blind_peek.bind_option (blind_assemble _ _ _) fun b => ?_
  exact (Blind.skip_bind 1 (blind_withExponent _ _ _)).ite (blind_assemble _ _ _)

theorem blind_withFraction (negative : Bool) (significand : Nat) (shift : Int) :
    Blind (withFraction negative significand shift) := by
  refine blind_digits.bind fun fraction => Blind.ite ?_ (blind_afterSignificand _ _ _)
  exact blind_peek.bind_option (Blind.failNext _) fun b => Blind.failNext _

theorem blind_numberRest (negative : Bool) : Blind (numberRest negative) := by
  have hending (significand : Nat) (beyond : List UInt8) :
      Blind (numberRest.ending negative significand beyond) :=
    (Blind.pure _).ite (blind_assemble _ _ _)
  refine blind_wholeDigits.bind fun whole => ?_
  refine blind_peek.bind_option (hending _ _) fun b => ?_
  exact (Blind.skip_bind 1 (blind_withFraction _ _ _)).ite
    ((Blind.skip_bind 1 (blind_withExponent _ _ _)).ite (hending _ _))

theorem blind_number (first : UInt8) : Blind (number first) :=
  (Blind.skip_bind 1 (blind_numberRest true)).ite (blind_numberRest false)

/-! ### Strings -/

theorem blind_decoded (bytes : List UInt8) : Blind (decoded bytes) := by
  intro left i j hi hj
  rw [decoded, decoded]
  split
  · exact .ok (hi.trans hj.symm) (hi ▸ List.suffix_refl left)
  · exact .fail rfl rfl

theorem blind_stringRest : Blind stringRest := agrees_content.blind.bind blind_decoded

/-! ### Values that are passed over -/

theorem blind_skipExponent : Blind skipExponent := by
  refine blind_exponentSign.bind fun _ => blind_next.bind_option (Blind.failHere _) fun b => ?_
  exact (blind_digits.bind fun _ => Blind.pure _).ite (Blind.failHere _)

theorem blind_skipOptionalExponent : Blind skipOptionalExponent := by
  refine blind_peek.bind_option (Blind.pure _) fun b => ?_
  exact (Blind.skip_bind 1 blind_skipExponent).ite (Blind.pure _)

theorem blind_skipAfterWhole : Blind skipAfterWhole := by
  refine blind_peek.bind_option (Blind.pure _) fun b => Blind.ite ?_ blind_skipOptionalExponent
  refine Blind.skip_bind 1 (blind_digits.bind fun fraction => ?_)
  exact (Blind.failNext _).ite blind_skipOptionalExponent

theorem blind_skipNumber : Blind skipNumber := by
  refine blind_next.bind_option (Blind.failHere _) fun b => (Blind.failHere _).ite (Blind.ite ?_ ?_)
  · refine blind_peek.bind_option blind_skipAfterWhole fun c => ?_
    exact (Blind.failNext _).ite blind_skipAfterWhole
  · exact blind_digits.bind fun _ => blind_skipAfterWhole

theorem blind_skipString : Blind skipString := agrees_skipString.blind

theorem blind_enterItem (c : Container) : Blind (enterItem c) := by
  cases c with
  | list => exact Blind.pure ()
  | object =>
    refine blind_token.bind_option (Blind.failNext _) fun b => Blind.ite ?_ (Blind.failNext _)
    exact Blind.skip_bind 1 (blind_skipString.bind fun _ => blind_separator)

theorem blind_leave (stack : List Container) : Blind (leave stack) := by
  induction stack with
  | nil => exact Blind.pure _
  | cons c outer ih =>
    refine blind_token.bind_option (Blind.failNext _) fun b => Blind.ite ?_ ?_
    · exact Blind.skip_bind 1 ((blind_enterItem c).bind fun _ => Blind.pure _)
    · exact (Blind.skip_bind 1 ih).ite (Blind.failNext _)

theorem blind_enter (c : Container) (outer : List Container) : Blind (enter c outer) := by
  refine blind_token.bind_option (Blind.failNext _) fun b => ?_
  exact (Blind.skip_bind 1 (blind_leave outer)).ite
    ((blind_enterItem c).bind fun _ => Blind.pure _)

theorem blind_skipStep (stack : List Container) : Blind (skipStep stack) := by
  have hleave (r : Reader Unit) (hr : Blind r) : Blind (r >>= fun _ => leave stack) :=
    hr.bind fun _ => blind_leave stack
  refine blind_token.bind_option (Blind.failNext _) fun b => ?_
  refine Blind.ite (Blind.skip_bind 1 (hleave _ (blind_wordRest _))) ?_
  refine Blind.ite (Blind.skip_bind 1 (hleave _ (blind_wordRest _))) ?_
  refine Blind.ite (Blind.skip_bind 1 (hleave _ (blind_wordRest _))) ?_
  refine Blind.ite (Blind.skip_bind 1 (hleave _ blind_skipNumber)) ?_
  refine Blind.ite (hleave _ blind_skipNumber) ?_
  refine Blind.ite (Blind.skip_bind 1 (hleave _ blind_skipString)) ?_
  refine Blind.ite (Blind.skip_bind 1 (blind_enter _ _)) ?_
  exact (Blind.skip_bind 1 (blind_enter _ _)).ite (Blind.failNext _)

theorem blind_skipValue : Blind skipValue := blind_loop blind_skipStep []

/-! ### Scalars and lists -/

theorem blind_found : Blind found := by
  refine blind_peek.bind_option (Blind.failNext _) fun b => ?_
  refine Blind.ite (Blind.skip_bind 1 ((blind_wordRest _).bind fun _ => Blind.pure _)) ?_
  refine Blind.ite (Blind.skip_bind 1 ((blind_wordRest _).bind fun _ => Blind.pure _)) ?_
  refine Blind.ite (Blind.skip_bind 1 ((blind_wordRest _).bind fun _ => Blind.pure _)) ?_
  refine Blind.ite ((blind_number b).bind fun n => Blind.pure _) ?_
  refine Blind.ite (Blind.skip_bind 1 (blind_stringRest.bind fun s => Blind.pure _)) ?_
  exact (Blind.pure _).ite ((Blind.pure _).ite (Blind.failNext _))

theorem blind_wrongKind (expected : String) : Blind (wrongKind expected : Reader α) :=
  (blind_found.bind fun _ => Blind.failUnplaced _).placing

theorem blind_numberAs (expected : String) {convert : Number → Reader α}
    (hconvert : ∀ n, Blind (convert n)) : Blind (numberAs expected convert) := by
  refine blind_token.bind_option (Blind.failNext _) fun b => ?_
  exact ((blind_number b).bind hconvert).placing.ite (blind_wrongKind expected)

theorem blind_integer (expected : String) (accept : Int → Option α) :
    Blind (integer expected accept) := by
  have haccepted (i : Int) : Blind (integer.accepted expected accept i) := by
    rw [integer.accepted]
    cases accept i with
    | none => exact Blind.failUnplaced _
    | some a => exact Blind.pure a
  refine blind_numberAs expected fun n => ?_
  cases n with
  | natural n => exact haccepted n
  | negative i => exact haccepted i
  | float x => exact Blind.failUnplaced _

theorem blind_float : Blind float := blind_numberAs "f64" fun n => Blind.pure n.toFloat

theorem blind_string : Blind string := by
  refine blind_token.bind_option (Blind.failNext _) fun b => ?_
  exact (Blind.skip_bind 1 blind_stringRest).placing.ite (blind_wrongKind _)

theorem blind_nothing : Blind nothing := by
  refine blind_token.bind_option (Blind.failNext _) fun b => ?_
  exact (Blind.skip_bind 1 (blind_wordRest _)).placing.ite (blind_wrongKind _)

theorem blind_list {element : Reader α} (h : Blind element) : Blind (list element) := by
  have hstep (found : List α) : Blind (elementStep element found) :=
    (blind_nextElement _).bind fun another =>
      (h.bind fun a => Blind.pure _).ite (Blind.pure _)
  refine blind_token.bind_option (Blind.failNext _) fun b => Blind.ite ?_ (blind_wrongKind _)
  exact (Blind.skip_bind 1 ((blind_loop hstep []).closing blind_endList)).placing

/-! ### Records -/

/-- Every field is read blindly. -/
def BlindFields (fs : List Field) : Prop := ∀ f ∈ fs, Blind f.read

theorem BlindFields.head {f : Field} {fs : List Field} (h : BlindFields (f :: fs)) :
    Blind f.read := h f List.mem_cons_self

theorem BlindFields.tail {f : Field} {fs : List Field} (h : BlindFields (f :: fs)) :
    BlindFields fs := fun g hg => h g (List.mem_cons_of_mem f hg)

theorem blind_fill {name : String} {fs : List Field} {slots : Slots fs} {r : Reader (Slots fs)}
    (h : BlindFields fs) (hr : fill name fs slots = some r) : Blind r := by
  induction fs with
  | nil => cases hr
  | cons f fs ih =>
    obtain ⟨slot, slots⟩ := slots
    rw [fill] at hr
    split at hr
    · obtain rfl := Option.some.inj hr
      refine Blind.ite (Blind.failUnplaced _) (blind_separator.bind fun _ => ?_)
      exact h.head.bind fun value => Blind.pure _
    · obtain ⟨below, hbelow, rfl⟩ := Option.map_eq_some_iff.mp hr
      exact (ih h.tail hbelow).bind fun slots => Blind.pure _

theorem blind_unknownMember (shape : Shape α) (name : String) :
    Blind (unknownMember shape name) :=
  (blind_separator.bind fun _ => blind_skipValue).ite (Blind.failUnplaced _)

theorem blind_members {shape : Shape α} (h : BlindFields shape.fields) :
    Blind (members shape) := by
  have hstep (state : Bool × Slots shape.fields) : Blind (memberStep shape state) := by
    refine (blind_nextMember _).bind fun another => Blind.ite ?_ (Blind.pure _)
    refine blind_stringRest.bind fun name => ?_
    split
    · rename_i r hr
      exact (blind_fill h hr).bind fun slots => Blind.pure _
    · exact (blind_unknownMember shape name).bind fun _ => Blind.pure _
  refine (blind_loop hstep _).bind fun slots => ?_
  split
  · exact Blind.pure _
  · exact Blind.failUnplaced _

theorem blind_positional (expected : String) {fs : List Field} (h : BlindFields fs)
    (count : Nat) : Blind (positional expected fs count) := by
  induction fs generalizing count with
  | nil => exact Blind.pure _
  | cons f fs ih =>
    refine (blind_nextElement _).bind fun another => Blind.ite ?_ ?_
    · exact h.head.bind fun value => (ih h.tail _).bind fun values => Blind.pure _
    · split
      · exact (ih h.tail _).bind fun values => Blind.pure _
      · exact Blind.failUnplaced _

theorem blind_record {shape : Shape α} (h : BlindFields shape.fields) : Blind (record shape) := by
  refine blind_token.bind_option (Blind.failNext _) fun b => Blind.ite ?_ (Blind.ite ?_ ?_)
  · exact (Blind.skip_bind 1 ((blind_members h).closing blind_endObject)).placing
  · have hvalues := (blind_positional (arity shape) h 0).bind fun values =>
      Blind.pure (shape.build values)
    exact (Blind.skip_bind 1 (hvalues.closing blind_endList)).placing
  · exact blind_wrongKind _

/-! ### Alternatives -/

/-- Every field of the alternative is read blindly. -/
def BlindPayload : Payload α → Prop
  | .bare _ => True
  | .record shape => BlindFields shape.fields

theorem blind_payload {p : Payload α} (h : BlindPayload p) : Blind (payload p) := by
  cases p with
  | bare value => exact blind_nothing.bind fun _ => Blind.pure value
  | record shape => exact blind_record h

theorem blind_variantName (variants : List (Variant α)) : Blind (variantName variants) := by
  refine (blind_stringRest.bind fun name => ?_).placing
  split
  · exact Blind.pure _
  · exact Blind.failUnplaced _

theorem blind_variant {variants : List (Variant α)}
    (h : ∀ v ∈ variants, BlindPayload v.payload) : Blind (variant variants) := by
  refine blind_token.bind_option (Blind.failNext _) fun b => Blind.ite ?_ (Blind.ite ?_ ?_)
  · refine Blind.skip_bind 1 ((blind_variantName variants).bind fun k => ?_)
    split
    · exact Blind.pure _
    · exact Blind.failUnplaced _
  · refine Blind.skip_bind 1 (blind_token.bind_option (Blind.failNext _) fun c => ?_)
    refine (Blind.failNext _).ite (Blind.ite (Blind.skip_bind 1 ?_) (Blind.failNext _))
    refine (blind_variantName variants).bind fun k => blind_separator.bind fun _ => ?_
    refine (blind_payload (h _ (List.get_mem variants k))).bind fun value => ?_
    refine blind_token.bind_option (Blind.failHere _) fun d => ?_
    exact (Blind.skip_bind 1 (Blind.pure _)).ite (Blind.failHere _)
  · exact Blind.failNext _

/-! ### Whole texts -/

theorem blind_document {r : Reader α} (h : Blind r) : Blind (document r) :=
  h.bind fun value => blind_token.bind_option (Blind.pure value) fun _ => Blind.failNext _

/-- A blind reader reads the same from a stream as from a text, or finds the same fault. -/
theorem runOn_of_blind {r : Reader α} (h : Blind r) (bytes : List UInt8) :
    (∃ a, runOn r .stream bytes = .ok a ∧ runOn r .text bytes = .ok a) ∨
      ∃ e e', runOn r .stream bytes = .error e ∧ runOn r .text bytes = .error e' ∧
        e.fault = e'.fault ∧ e.position?.isSome = e'.position?.isSome := by
  have halike := blind_document h bytes (.start bytes .stream) (.start bytes .text) rfl rfl
  rw [runOn, runOn]
  generalize document r (.start bytes .stream) = x at halike ⊢
  generalize document r (.start bytes .text) = y at halike ⊢
  cases halike with
  | @ok a i j => exact .inl ⟨a, rfl, rfl⟩
  | fail hfault hplace =>
    refine .inr ⟨_, _, rfl, rfl, hfault, ?_⟩
    rw [Option.isSome_map, Option.isSome_map, hplace]

end Reader

end Json

end Storyboard
