/-
Storyboard/Proofs/Json/Answers.lean

What a reader can answer.

Reading is looked at backwards here: a value was answered (`Answers`), on
whatever input, so how was it made?  Each way of putting readers together has
one lemma that takes the answer apart.  A repetition is taken apart at its last
step, with what the earlier ones keep true (`answers_loop`).

The results are those for the readers that read types by their tables.  Every
element of a list was answered by the reader of its elements (`answers_list`).
A record was built from values each of which its field has read or has as its
default, whether it stood as an object or as a list (`answers_record`), and an
alternative is one of those that the table has (`answers_variant`).
-/
import Storyboard.Proofs.Json.Doubles

namespace Storyboard

namespace Json

/-! ### Values that fields make -/

/-- The reader answers this value on some input. -/
def Reader.Answers {α : Type} (r : Reader α) (a : α) : Prop := ∃ i j, r i = .ok a j

/-- The value is one that the field has read, or its default. -/
def Field.Makes (f : Field) (value : f.Carrier) : Prop :=
  f.default? = some value ∨ f.read.Answers value

/-- Every value is one that its field makes. -/
def Values.Made : (fs : List Field) → Values fs → Prop
  | [], _ => True
  | f :: fs, (value, values) => f.Makes value ∧ Values.Made fs values

/-- Every value that is known was read by its field. -/
def Slots.Filled : (fs : List Field) → Slots fs → Prop
  | [], _ => True
  | f :: fs, (slot, slots) => (∀ value, slot = some value → f.read.Answers value) ∧
      Slots.Filled fs slots

/-- The record is built from values that the fields make. -/
def Shape.Builds {α : Type} (shape : Shape α) (a : α) : Prop :=
  ∃ values, Values.Made shape.fields values ∧ shape.build values = a

/-- The value is one that belongs to the name. -/
def Payload.Makes {α : Type} : Payload α → α → Prop
  | .bare value, a => value = a
  | .record shape, a => shape.Builds a

theorem Slots.filled_none (fs : List Field) : Slots.Filled fs (Slots.none fs) := by
  induction fs with
  | nil => exact trivial
  | cons f fs ih => exact ⟨fun _ h => absurd h (by simp), ih⟩

/-- Slots are completed by defaults. -/
theorem Slots.made_complete {fs : List Field} {slots : Slots fs} {values : Values fs}
    (hslots : Slots.Filled fs slots) (h : Slots.complete fs slots = .ok values) :
    Values.Made fs values := by
  induction fs with
  | nil => exact trivial
  | cons f fs ih =>
    obtain ⟨slot, slots⟩ := slots
    obtain ⟨hslot, hrest⟩ := hslots
    simp only [Slots.complete] at h
    split at h
    · cases h
    · rename_i value hvalue
      cases hcomplete : Slots.complete fs slots with
      | error name =>
        rw [hcomplete] at h
        cases h
      | ok others =>
        rw [hcomplete] at h
        cases h
        refine ⟨?_, ih hrest hcomplete⟩
        cases slot with
        | none => exact .inl hvalue
        | some v => exact .inr (hslot value hvalue)

namespace Reader

variable {α β σ : Type}

/-! ### Readers put together -/

theorem Fails.not_answers {r : Reader α} (h : Fails r) (a : α) : ¬ r.Answers a := by
  rintro ⟨i, j, hok⟩
  exact h i a j hok

theorem fails_failUnplaced (fault : Fault) : Fails (failUnplaced fault : Reader α) := by
  intro i a j h
  cases h

theorem answers_pure {a b : α} (h : Answers (pure a) b) : a = b := by
  obtain ⟨i, j, hok⟩ := h
  cases hok
  rfl

theorem answers_bind {r : Reader α} {f : α → Reader β} {b : β} (h : Answers (r >>= f) b) :
    ∃ a, r.Answers a ∧ (f a).Answers b := by
  obtain ⟨i, k, hok⟩ := h
  obtain ⟨a, j, hr, hf⟩ := bind_eq_ok hok
  exact ⟨a, ⟨i, j, hr⟩, j, k, hf⟩

/-- Where only the last of two readers matters. -/
theorem answers_of_bind {r : Reader α} {f : α → Reader β} {b : β} (h : Answers (r >>= f) b) :
    ∃ a, (f a).Answers b := by
  obtain ⟨a, -, hf⟩ := answers_bind h
  exact ⟨a, hf⟩

theorem answers_placing {r : Reader α} {a : α} (h : Answers (placing r) a) : r.Answers a := by
  obtain ⟨i, j, hok⟩ := h
  exact ⟨i, j, placing_eq_ok hok⟩

theorem answers_closing {body : Reader α} {ending : Reader Unit} {a : α}
    (h : Answers (closing body ending) a) : body.Answers a := by
  obtain ⟨i, k, hok⟩ := h
  rw [closing] at hok
  split at hok
  · rename_i value j hbody
    split at hok
    · cases hok
      exact ⟨i, j, hbody⟩
    · cases hok
  · split at hok
    · cases hok
    · cases hok

/-- What a repetition answers, its last step answered, at a state of which all holds that
the steps before it keep true. -/
theorem answers_loop {step : σ → Reader (σ ⊕ α)} {P : σ → Prop}
    (hstep : ∀ s t, P s → (step s).Answers (.inl t) → P t) {s : σ} (hs : P s) {a : α}
    (h : Answers (loop step s) a) : ∃ t, P t ∧ (step t).Answers (.inr a) := by
  obtain ⟨i, k, hok⟩ := h
  rw [loop] at hok
  generalize i.left + 1 = n at hok
  -- by induction on the number of steps that are left
  induction n generalizing s i with
  | zero => cases hok
  | succ n ih =>
    simp only [iterate] at hok
    split at hok
    · rename_i t j hgo
      exact ih (hstep s t hs ⟨i, j, hgo⟩) j hok
    · rename_i b j hend
      cases hok
      exact ⟨s, hs, i, _, hend⟩
    · cases hok

/-! ### Scalars and lists -/

theorem answers_numberAs {expected : String} {convert : Number → Reader α} {a : α}
    (h : Answers (numberAs expected convert) a) :
    ∃ b n, (number b).Answers n ∧ (convert n).Answers a := by
  obtain ⟨b?, h⟩ := answers_of_bind h
  split at h
  · exact absurd h ((fails_failNext _).not_answers a)
  · rename_i b
    split at h
    · obtain ⟨n, hn, hconvert⟩ := answers_bind (answers_placing h)
      exact ⟨b, n, hn, hconvert⟩
    · exact absurd h ((fails_wrongKind _).not_answers a)

theorem answers_list {element : Reader α} {as : List α} (h : Answers (list element) as) :
    ∀ a ∈ as, element.Answers a := by
  obtain ⟨b?, h⟩ := answers_of_bind h
  split at h
  · exact absurd h ((fails_failNext _).not_answers as)
  split at h
  · obtain ⟨_, h⟩ := answers_of_bind (answers_placing h)
    -- a step puts one answer more onto the elements found
    have hstep : ∀ found more : List α, (∀ a ∈ found, element.Answers a) →
        (elementStep element found).Answers (.inl more) → ∀ a ∈ more, element.Answers a := by
      intro found more hfound hgo
      obtain ⟨another, hgo⟩ := answers_of_bind hgo
      split at hgo
      · obtain ⟨b, hb, hgo⟩ := answers_bind hgo
        obtain rfl := Sum.inl.inj (answers_pure hgo)
        intro a ha
        rcases List.mem_cons.mp ha with rfl | ha
        · exact hb
        · exact hfound a ha
      · cases answers_pure hgo
    obtain ⟨found, hfound, hend⟩ :=
      answers_loop hstep (fun _ ha => absurd ha List.not_mem_nil) (answers_closing h)
    obtain ⟨another, hend⟩ := answers_of_bind hend
    split at hend
    · obtain ⟨_, hend⟩ := answers_of_bind hend
      cases answers_pure hend
    · obtain rfl := Sum.inr.inj (answers_pure hend)
      exact fun a ha => hfound a (List.mem_reverse.mp ha)
  · exact absurd h ((fails_wrongKind _).not_answers as)

/-! ### Records -/

/-- A member's value goes into the slot of its field. -/
theorem answers_fill {name : String} {fs : List Field} {slots more : Slots fs}
    {r : Reader (Slots fs)} (hslots : Slots.Filled fs slots) (hr : fill name fs slots = some r)
    (h : r.Answers more) : Slots.Filled fs more := by
  induction fs with
  | nil => cases hr
  | cons f fs ih =>
    obtain ⟨slot, slots⟩ := slots
    obtain ⟨hslot, hrest⟩ := hslots
    simp only [fill] at hr
    split at hr
    · obtain rfl := Option.some.inj hr
      split at h
      · exact absurd h ((fails_failUnplaced _).not_answers more)
      · obtain ⟨_, h⟩ := answers_of_bind h
        obtain ⟨value, hvalue, h⟩ := answers_bind h
        obtain rfl := answers_pure h
        exact ⟨fun v hv => Option.some.inj hv ▸ hvalue, hrest⟩
    · obtain ⟨below, hbelow, rfl⟩ := Option.map_eq_some_iff.mp hr
      obtain ⟨others, hothers, h⟩ := answers_bind h
      obtain rfl := answers_pure h
      exact ⟨hslot, ih hrest hbelow hothers⟩

theorem answers_members {shape : Shape α} {a : α} (h : Answers (members shape) a) :
    shape.Builds a := by
  obtain ⟨slots, hloop, h⟩ := answers_bind h
  have hstep : ∀ state next : Bool × Slots shape.fields, Slots.Filled shape.fields state.2 →
      (memberStep shape state).Answers (.inl next) → Slots.Filled shape.fields next.2 := by
    intro state next hstate hgo
    obtain ⟨another, hgo⟩ := answers_of_bind hgo
    split at hgo
    · obtain ⟨name, hgo⟩ := answers_of_bind hgo
      split at hgo
      · rename_i r hr
        obtain ⟨more, hmore, hgo⟩ := answers_bind hgo
        obtain rfl := Sum.inl.inj (answers_pure hgo)
        exact answers_fill hstate hr hmore
      · obtain ⟨_, hgo⟩ := answers_of_bind hgo
        obtain rfl := Sum.inl.inj (answers_pure hgo)
        exact hstate
    · cases answers_pure hgo
  obtain ⟨state, hstate, hend⟩ := answers_loop hstep (Slots.filled_none shape.fields) hloop
  have hslots : Slots.Filled shape.fields slots := by
    obtain ⟨another, hend⟩ := answers_of_bind hend
    split at hend
    · obtain ⟨name, hend⟩ := answers_of_bind hend
      split at hend
      · obtain ⟨_, hend⟩ := answers_of_bind hend
        cases answers_pure hend
      · obtain ⟨_, hend⟩ := answers_of_bind hend
        cases answers_pure hend
    · exact Sum.inr.inj (answers_pure hend) ▸ hstate
  split at h
  · rename_i values hvalues
    exact ⟨values, Slots.made_complete hslots hvalues, answers_pure h⟩
  · exact absurd h ((fails_failUnplaced _).not_answers a)

theorem answers_positional {expected : String} {fs : List Field} {count : Nat}
    {values : Values fs} (h : Answers (positional expected fs count) values) :
    Values.Made fs values := by
  induction fs generalizing count with
  | nil => exact trivial
  | cons f fs ih =>
    obtain ⟨another, h⟩ := answers_of_bind h
    split at h
    · obtain ⟨value, hvalue, h⟩ := answers_bind h
      obtain ⟨others, hothers, h⟩ := answers_bind h
      obtain rfl := answers_pure h
      exact ⟨.inr hvalue, ih hothers⟩
    · split at h
      · rename_i value hvalue
        obtain ⟨others, hothers, h⟩ := answers_bind h
        obtain rfl := answers_pure h
        exact ⟨.inl hvalue, ih hothers⟩
      · exact absurd h ((fails_failUnplaced _).not_answers values)

/-- A record is built from values that its fields make. -/
theorem answers_record {shape : Shape α} {a : α} (h : Answers (record shape) a) :
    shape.Builds a := by
  obtain ⟨b?, h⟩ := answers_of_bind h
  split at h
  · exact absurd h ((fails_failNext _).not_answers a)
  split at h
  · obtain ⟨_, h⟩ := answers_of_bind (answers_placing h)
    exact answers_members (answers_closing h)
  split at h
  · obtain ⟨_, h⟩ := answers_of_bind (answers_placing h)
    obtain ⟨values, hvalues, h⟩ := answers_bind (answers_closing h)
    exact ⟨values, answers_positional hvalues, answers_pure h⟩
  · exact absurd h ((fails_wrongKind _).not_answers a)

/-! ### Alternatives -/

theorem answers_payload {p : Payload α} {a : α} (h : Answers (payload p) a) : p.Makes a := by
  cases p with
  | bare value =>
    obtain ⟨_, h⟩ := answers_of_bind h
    exact answers_pure h
  | record shape => exact answers_record h

/-- An alternative is one that the table has. -/
theorem answers_variant {variants : List (Variant α)} {a : α} (h : Answers (variant variants) a) :
    ∃ v ∈ variants, v.payload.Makes a := by
  obtain ⟨b?, h⟩ := answers_of_bind h
  split at h
  · exact absurd h ((fails_failNext _).not_answers a)
  split at h
  · -- a bare name
    obtain ⟨_, h⟩ := answers_of_bind h
    obtain ⟨k, h⟩ := answers_of_bind h
    refine ⟨variants.get k, List.get_mem variants k, ?_⟩
    split at h
    · rename_i value hpayload
      rw [hpayload]
      exact answers_pure h
    · exact absurd h ((fails_failUnplaced _).not_answers a)
  split at h
  · -- an object with the name as its only member
    obtain ⟨_, h⟩ := answers_of_bind h
    obtain ⟨c?, h⟩ := answers_of_bind h
    split at h
    · exact absurd h ((fails_failNext _).not_answers a)
    split at h
    · exact absurd h ((fails_failNext _).not_answers a)
    split at h
    · obtain ⟨_, h⟩ := answers_of_bind h
      obtain ⟨k, h⟩ := answers_of_bind h
      obtain ⟨_, h⟩ := answers_of_bind h
      obtain ⟨value, hvalue, h⟩ := answers_bind h
      obtain ⟨d?, h⟩ := answers_of_bind h
      split at h
      · exact absurd h ((fails_failHere _).not_answers a)
      split at h
      · obtain ⟨_, h⟩ := answers_of_bind h
        obtain rfl := answers_pure h
        exact ⟨variants.get k, List.get_mem variants k, answers_payload hvalue⟩
      · exact absurd h ((fails_failHere _).not_answers a)
    · exact absurd h ((fails_failNext _).not_answers a)
  · exact absurd h ((fails_failNext _).not_answers a)

/-! ### Whole texts -/

theorem answers_of_runOn {r : Reader α} {source : Source} {bytes : List UInt8} {a : α}
    (h : runOn r source bytes = .ok a) : r.Answers a := by
  rw [runOn] at h
  split at h
  · rename_i value k hok
    cases h
    obtain ⟨j, hj, -⟩ := document_eq_ok hok
    exact ⟨_, j, hj⟩
  · cases h

end Reader

end Json

end Storyboard
