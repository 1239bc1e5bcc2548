/-
Storyboard/Proofs/Json/Alike.lean

Readers that see nothing but bytes.

How much was read before, whether the next byte was looked at and where the bytes come from
is in every input, and only the places of errors should depend on it.  Two outcomes are
alike if they differ in nothing else (`Outcome.Alike`).  Two readers agree if they make
alike outcomes of the same unread bytes, and a reader is blind if it agrees with itself.

Blindness is derived along the definition of a reader, with one rule for each way of putting
readers together.  What was learnt of a reader carries over to every reader that agrees with
it (`Agrees.yields`).
-/
import Storyboard.Proofs.Json.Yields

namespace Storyboard

namespace Json

variable {α β σ : Type}

/-! ### Outcomes -/

/-- The same answer with the same of these bytes left, or the same fault, with a place in
both or in neither. -/
inductive Outcome.Alike (bytes : List UInt8) : Outcome α → Outcome α → Prop
  | ok {a : α} {i j : Input} (h : i.rest = j.rest) (hrest : i.rest <:+ bytes) :
    Alike bytes (.ok a i) (.ok a j)
  | fail {e f : Error} {i j : Input} (hfault : e.fault = f.fault)
      (hplace : e.place?.isSome = f.place?.isSome) : Alike bytes (.fail e i) (.fail f j)

namespace Outcome.Alike

variable {bytes : List UInt8} {x y z : Outcome α}

theorem symm (h : x.Alike bytes y) : y.Alike bytes x := by
  cases h with
  | ok h hrest => exact ok h.symm (h ▸ hrest)
  | fail hfault hplace => exact fail hfault.symm hplace.symm

theorem trans (h : x.Alike bytes y) (h' : y.Alike bytes z) : x.Alike bytes z := by
  cases h with
  | ok h hrest =>
    cases h' with
    | ok h' => exact ok (h.trans h') hrest
  | fail hfault hplace =>
    cases h' with
    | fail hfault' hplace' => exact fail (hfault.trans hfault') (hplace.trans hplace')

theorem mono {more : List UInt8} (h : x.Alike bytes y) (hmore : bytes <:+ more) :
    x.Alike more y := by
  cases h with
  | ok h hrest => exact ok h (hrest.trans hmore)
  | fail hfault hplace => exact fail hfault hplace

theorem eq_ok {a : α} {i : Input} (h : (Outcome.ok a i).Alike bytes y) :
    ∃ j, y = .ok a j ∧ i.rest = j.rest := by
  cases h with
  | ok h => exact ⟨_, rfl, h⟩

end Outcome.Alike

theorem Input.left_eq_left {i j : Input} (h : i.rest = j.rest) : i.left = j.left := by
  rw [i.left_eq, j.left_eq, h]

namespace Reader

/-! ### Agreement -/

/-- The readers make alike outcomes of the same bytes. -/
def Agrees (r s : Reader α) : Prop :=
  ∀ (bytes : List UInt8) (i j : Input), i.rest = bytes → j.rest = bytes →
    (r i).Alike bytes (s j)

/-- The reader sees nothing but the bytes. -/
def Blind (r : Reader α) : Prop := Agrees r r

namespace Agrees

variable {r s : Reader α}

theorem symm (h : Agrees r s) : Agrees s r :=
  fun bytes i j hi hj => (h bytes j i hj hi).symm

theorem trans {t : Reader α} (h : Agrees r s) (h' : Agrees s t) : Agrees r t :=
  fun bytes i j hi hj => (h bytes i i hi hi).trans (h' bytes i j hi hj)

theorem blind (h : Agrees r s) : Blind r := h.trans h.symm

/-- Where the two ways of reading agree, it does not matter which is taken. -/
theorem bySource {streamed whole : Reader α} (h : Agrees streamed whole) :
    Agrees (bySource whole streamed) whole := by
  intro bytes i j hi hj
  rw [Reader.bySource]
  cases i.source with
  | text => exact h.symm.blind bytes i j hi hj
  | stream => exact h bytes i j hi hj

theorem yields {bytes rest : List UInt8} {a : α} (h : Agrees r s) (hs : s.Yields bytes a rest) :
    r.Yields bytes a rest := by
  intro i hi
  obtain ⟨j, hj, hrest⟩ := hs i hi
  have hi := (h bytes i i hi hi).symm
  rw [hj] at hi
  obtain ⟨k, hk, heq⟩ := hi.eq_ok
  exact ⟨k, hk, heq.symm.trans hrest⟩

end Agrees

/-- An answer leaves no more bytes than there were. -/
theorem Blind.left_le {r : Reader α} (h : Blind r) {i j : Input} {a : α} (hok : r i = .ok a j) :
    j.left ≤ i.left := by
  have hi := h i.rest i i rfl rfl
  rw [hok] at hi
  cases hi with
  | ok _ hrest =>
    rw [i.left_eq, j.left_eq]
    exact hrest.length_le

/-! ### Putting readers together -/

namespace Blind

variable {r : Reader α}

theorem pure (a : α) : Blind (Pure.pure a : Reader α) :=
  fun bytes _ _ hi hj => .ok (hi.trans hj.symm) (hi ▸ List.suffix_refl bytes)

theorem bind {f : α → Reader β} (hr : Blind r) (hf : ∀ a, Blind (f a)) : Blind (r >>= f) := by
  intro bytes i j hi hj
  show (andThen r f i).Alike bytes (andThen r f j)
  rw [andThen, andThen]
  have h := hr bytes i j hi hj
  generalize r i = x at h ⊢
  generalize r j = y at h ⊢
  cases h with
  | ok heq hrest => exact (hf _ _ _ _ rfl heq.symm).mono hrest
  | fail hfault hplace => exact .fail hfault hplace

theorem failHere (fault : Fault) : Blind (Reader.failHere fault : Reader α) :=
  fun _ _ _ _ _ => .fail rfl rfl

theorem failNext (fault : Fault) : Blind (Reader.failNext fault : Reader α) :=
  fun _ _ _ _ _ => .fail rfl rfl

theorem failUnplaced (fault : Fault) : Blind (Reader.failUnplaced fault : Reader α) :=
  fun _ _ _ _ _ => .fail rfl rfl

theorem placing (h : Blind r) : Blind (Reader.placing r) := by
  intro bytes i j hi hj
  have h := h bytes i j hi hj
  rw [Reader.placing, Reader.placing]
  generalize r i = x at h ⊢
  generalize r j = y at h ⊢
  cases h with
  | ok heq hrest => exact .ok heq hrest
  | @fail e f k l hfault hplace =>
    obtain ⟨fault, place?⟩ := e
    obtain ⟨fault', place?'⟩ := f
    obtain rfl : fault = fault' := hfault
    -- a place is given to both errors or to neither
    cases place? with
    | none =>
      cases place?' with
      | none => exact .fail rfl rfl
      | some p => cases hplace
    | some p =>
      cases place?' with
      | none => cases hplace
      | some q => exact .fail rfl rfl

theorem closing {ending : Reader Unit} (hr : Blind r) (he : Blind ending) :
    Blind (Reader.closing r ending) := by
  intro bytes i j hi hj
  have h := hr bytes i j hi hj
  rw [Reader.closing, Reader.closing]
  generalize r i = x at h ⊢
  generalize r j = y at h ⊢
  cases h with
  | @ok a k l heq hrest =>
    have h := (he _ k l rfl heq.symm).mono hrest
    simp only
    generalize ending k = x at h ⊢
    generalize ending l = y at h ⊢
    cases h with
    | ok heq hrest => exact .ok heq hrest
    | fail hfault hplace => exact .fail hfault hplace
  | @fail e f k l hfault hplace =>
    -- the error is that of the body, however the end is read
    simp only
    cases ending k with
    | ok => cases ending l with
      | ok => exact .fail hfault hplace
      | fail => exact .fail hfault hplace
    | fail => cases ending l with
      | ok => exact .fail hfault hplace
      | fail => exact .fail hfault hplace

theorem ite {p : Prop} [Decidable p] {s : Reader α} (hr : Blind r) (hs : Blind s) :
    Blind (if p then r else s) := by
  split
  · exact hr
  · exact hs

end Blind

/-! ### Bytes -/

theorem blind_next : Blind next := by
  intro bytes i j hi hj
  rw [next, next, hi, hj]
  cases bytes with
  | nil => exact .ok (hi.trans hj.symm) (hi ▸ List.suffix_refl _)
  | cons b rest =>
    have hskip {k : Input} (hk : k.rest = b :: rest) : (k.skip 1).rest = rest := by
      show k.rest.drop 1 = rest
      rw [hk]
      rfl
    exact .ok ((hskip hi).trans (hskip hj).symm) (hskip hi ▸ List.suffix_cons b rest)

theorem blind_peek : Blind peek := by
  intro bytes i j hi hj
  rw [peek, peek, hi, hj]
  exact .ok (hi.trans hj.symm) (hi ▸ List.suffix_refl bytes)

theorem blind_skip (n : Nat) : Blind (skip n) := by
  intro bytes i j hi hj
  have hdrop {k : Input} (hk : k.rest = bytes) : (k.skip n).rest = bytes.drop n := by
    show k.rest.drop n = bytes.drop n
    rw [hk]
  exact .ok ((hdrop hi).trans (hdrop hj).symm) (hdrop hi ▸ List.drop_suffix n bytes)

theorem blind_run (test : UInt8 → Bool) : Blind (run test) := by
  intro bytes i j hi hj
  obtain ⟨k, hk, hkrest⟩ := yields_run test bytes i hi
  obtain ⟨l, hl, hlrest⟩ := yields_run test bytes j hj
  rw [hk, hl]
  exact .ok (hkrest.trans hlrest.symm) (hkrest ▸ List.dropWhile_suffix test)

/-! ### Repetition -/

theorem blind_iterate {step : σ → Reader (σ ⊕ α)} (hstep : ∀ s, Blind (step s)) (n : Nat) (s : σ) :
    Blind (iterate step n s) := by
  induction n generalizing s with
  | zero => exact Blind.failHere _
  | succ n ih =>
    intro bytes i j hi hj
    have h := hstep s bytes i j hi hj
    rw [iterate_succ, iterate_succ]
    generalize step s i = x at h ⊢
    generalize step s j = y at h ⊢
    cases h with
    | @ok out k l heq hrest =>
      cases out with
      | inl t => exact (ih t _ k l rfl heq.symm).mono hrest
      | inr a => exact .ok heq hrest
    | fail hfault hplace => exact .fail hfault hplace

theorem blind_loop {step : σ → Reader (σ ⊕ α)} (hstep : ∀ s, Blind (step s)) (s : σ) :
    Blind (loop step s) := by
  intro bytes i j hi hj
  -- as many repetitions are allowed, since as many bytes are left
  rw [loop, loop, Input.left_eq_left (hi.trans hj.symm)]
  exact blind_iterate hstep _ s bytes i j hi hj

/-- Repetitions are alike if their first steps are. -/
theorem alike_loop {step : σ → Reader (σ ⊕ α)} (hadvances : Advances step)
    (hstep : ∀ s, Blind (step s)) {s t : σ} {bytes : List UInt8} {i j : Input}
    (h : (step s i).Alike bytes (step t j)) : (loop step s i).Alike bytes (loop step t j) := by
  rw [loop_eq_of_advances hadvances, loop_eq_of_advances hadvances]
  generalize step s i = x at h ⊢
  generalize step t j = y at h ⊢
  cases h with
  | @ok out k l heq hrest =>
    cases out with
    | inl u => exact (blind_loop hstep u _ k l rfl heq.symm).mono hrest
    | inr a => exact .ok heq hrest
  | fail hfault hplace => exact .fail hfault hplace

end Reader

end Json

end Storyboard
