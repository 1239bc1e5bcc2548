/-
Storyboard/Proofs/Attempts.lean

Lists of attempts.

An attempt fails or answers a value, and a list of attempts stops at the first that fails.
It succeeds with what its steps answer (`mapM_eq_ok_iff`), and it fails as the first step
that does (`mapM_eq_error_iff`).
-/
import Mathlib.Data.List.Forall2

namespace Storyboard

variable {α β ε : Type} {f : α → Except ε β}

theorem mapM_cons_eq (f : α → Except ε β) (a : α) (rest : List α) :
    (a :: rest).mapM f = (f a).bind fun b => (rest.mapM f).map (b :: ·) := by
  rw [List.mapM_cons]
  cases f a with
  | error e => rfl
  | ok b => cases rest.mapM f <;> rfl

/-- A repetition succeeds if each step does. -/
theorem mapM_eq_ok_iff {as : List α} {bs : List β} :
    as.mapM f = .ok bs ↔ List.Forall₂ (fun a b => f a = .ok b) as bs := by
  induction as generalizing bs with
  | nil =>
    rw [List.mapM_nil, List.forall₂_nil_left_iff]
    exact ⟨fun h => (Except.ok.inj h).symm, fun h => h ▸ rfl⟩
  | cons a rest ih =>
    rw [mapM_cons_eq, List.forall₂_cons_left_iff]
    constructor
    · intro h
      cases ha : f a with
      | error e =>
        rw [ha] at h
        cases h
      | ok b =>
        cases hrest : rest.mapM f with
        | error e =>
          rw [ha, hrest] at h
          cases h
        | ok others =>
          rw [ha, hrest] at h
          exact ⟨b, others, rfl, ih.mp hrest, (Except.ok.inj h).symm⟩
    · rintro ⟨b, others, ha, hrest, rfl⟩
      rw [ha, ih.mpr hrest]
      rfl

/-- What a repetition answers, one of its steps has answered. -/
theorem exists_of_mem_mapM {as : List α} {bs : List β} (h : as.mapM f = .ok bs) {b : β}
    (hb : b ∈ bs) : ∃ a ∈ as, f a = .ok b := by
  have hsteps := mapM_eq_ok_iff.mp h
  clear h
  induction hsteps with
  | nil => cases hb
  | cons ha _ ih =>
    rcases List.mem_cons.mp hb with rfl | hb
    · exact ⟨_, List.mem_cons_self, ha⟩
    · obtain ⟨a, hmem, hok⟩ := ih hb
      exact ⟨a, List.mem_cons_of_mem _ hmem, hok⟩

/-- It succeeds at all if each step does. -/
theorem exists_mapM_eq_ok_iff {as : List α} :
    (∃ bs, as.mapM f = .ok bs) ↔ ∀ a ∈ as, ∃ b, f a = .ok b := by
  induction as with
  | nil => exact iff_of_true ⟨[], rfl⟩ fun _ ha => absurd ha List.not_mem_nil
  | cons a rest ih =>
    rw [List.forall_mem_cons, ← ih]
    simp only [mapM_eq_ok_iff, List.forall₂_cons_left_iff]
    constructor
    · rintro ⟨-, b, others, ha, hrest, -⟩
      exact ⟨⟨b, ha⟩, others, hrest⟩
    · rintro ⟨⟨b, ha⟩, others, hrest⟩
      exact ⟨b :: others, b, others, ha, hrest, rfl⟩

/-- A repetition fails as its first step that fails. -/
theorem mapM_eq_error_iff {as : List α} {e : ε} :
    as.mapM f = .error e ↔ ∃ before a after, as = before ++ a :: after ∧
      (∀ c ∈ before, ∃ b, f c = .ok b) ∧ f a = .error e := by
  induction as with
  | nil =>
    constructor
    · intro h
      cases h
    · rintro ⟨before, a, after, hnil, -⟩
      exact absurd hnil.symm (List.append_ne_nil_of_right_ne_nil before (List.cons_ne_nil a after))
  | cons first rest ih =>
    rw [mapM_cons_eq]
    constructor
    · intro h
      cases hfirst : f first with
      | error d =>
        rw [hfirst] at h
        obtain rfl : d = e := Except.error.inj h
        exact ⟨[], first, rest, rfl, fun _ hc => absurd hc List.not_mem_nil, hfirst⟩
      | ok b =>
        cases hrest : rest.mapM f with
        | error d =>
          rw [hfirst, hrest] at h
          obtain rfl : d = e := Except.error.inj h
          obtain ⟨before, a, after, rfl, hbefore, ha⟩ := ih.mp hrest
          refine ⟨first :: before, a, after, rfl, fun c hc => ?_, ha⟩
          rcases List.mem_cons.mp hc with rfl | hc
          · exact ⟨b, hfirst⟩
          · exact hbefore c hc
        | ok others =>
          rw [hfirst, hrest] at h
          cases h
    · rintro ⟨before, a, after, hsplit, hbefore, ha⟩
      cases before with
      | nil =>
        obtain ⟨rfl, rfl⟩ := List.cons.inj hsplit
        rw [ha]
        rfl
      | cons c before =>
        obtain ⟨rfl, rfl⟩ := List.cons.inj hsplit
        obtain ⟨b, hb⟩ := hbefore first List.mem_cons_self
        have hrest := ih.mpr ⟨before, a, after, rfl,
          fun d hd => hbefore d (List.mem_cons_of_mem first hd), ha⟩
        rw [hb, hrest]
        rfl

end Storyboard
