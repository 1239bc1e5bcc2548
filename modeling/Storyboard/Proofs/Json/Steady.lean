/-
Storyboard/Proofs/Json/Steady.lean

What follows a number does not change how it is read.

What the reader of numbers makes of some bytes alone it also makes of them in
front of a delimiter (`SteadyAt`): of the byte at which it stops it asks only
whether that byte goes on, and a delimiter answers as the end does.  There is a
rule for each way of looking at bytes, and a lemma for each part of a number.
-/
import Storyboard.Proofs.Json.Numbers

namespace Storyboard

namespace Json

namespace Reader

/-! ### Steadiness -/

variable {α β : Type}

/-- If the reader succeeds on these bytes alone, then it answers the same on them
with a delimiter after them, and leaves as much of them unread. -/
def SteadyAt (r : Reader α) (bytes : List UInt8) : Prop :=
  ∀ i a j, i.rest = bytes → r i = .ok a j →
    j.rest <:+ bytes ∧ ∀ tail, Delimited tail → r.Yields (bytes ++ tail) a (j.rest ++ tail)

/-- A reader that never succeeds. -/
def Fails (r : Reader α) : Prop := ∀ i a j, r i ≠ .ok a j

theorem fails_bind {r : Reader α} {f : α → Reader β} (hf : ∀ a, Fails (f a)) :
    Fails (r >>= f) := by
  intro i b k h
  obtain ⟨a, j, -, hk⟩ := bind_eq_ok h
  exact hf a j b k hk

theorem fails_failHere (fault : Fault) : Fails (failHere fault : Reader α) := by
  intro i a j h
  cases h

theorem fails_failNext (fault : Fault) : Fails (failNext fault : Reader α) := by
  intro i a j h
  cases h

namespace SteadyAt

variable {bytes mid : List UInt8}

theorem of_fails {r : Reader α} (h : Fails r) : SteadyAt r bytes :=
  fun i a j _ hok => absurd hok (h i a j)

theorem bind {r : Reader α} {f : α → Reader β} (hr : SteadyAt r bytes)
    (hf : ∀ a mid, SteadyAt (f a) mid) : SteadyAt (r >>= f) bytes := by
  intro i b k hi h
  obtain ⟨a, j, hj, hk⟩ := bind_eq_ok h
  obtain ⟨hsuffix, hyields⟩ := hr i a j hi hj
  obtain ⟨hsuffix', hyields'⟩ := hf a j.rest j b k rfl hk
  refine ⟨hsuffix'.trans hsuffix, fun tail htail => ?_⟩
  exact Yields.bind (hyields tail htail) (hyields' tail htail)

/-- The same, where it is known what the first reader answers. -/
theorem bind_yields {r : Reader α} {f : α → Reader β} {a : α} (hr : r.Yields bytes a mid)
    (hsuffix : mid <:+ bytes)
    (hsame : ∀ tail, Delimited tail → r.Yields (bytes ++ tail) a (mid ++ tail))
    (hf : SteadyAt (f a) mid) : SteadyAt (r >>= f) bytes := by
  intro i b k hi h
  obtain ⟨c, j, hj, hk⟩ := bind_eq_ok h
  obtain ⟨rfl, hmid⟩ := hr.eq_of_ok hi hj
  obtain ⟨hsuffix', hyields⟩ := hf j b k hmid hk
  refine ⟨hsuffix'.trans hsuffix, fun tail htail => ?_⟩
  exact Yields.bind (hsame tail htail) (hyields tail htail)

theorem pure (a : α) (bytes : List UInt8) : SteadyAt (Pure.pure a : Reader α) bytes := by
  intro i b j hi h
  obtain ⟨rfl, hrest⟩ := (Yields.pure a bytes).eq_of_ok hi h
  rw [hrest]
  exact ⟨List.suffix_refl bytes, fun tail _ => Yields.pure b (bytes ++ tail)⟩

/-- A look at the byte that comes next.  Where there is none, a delimiter makes
no difference. -/
theorem peek_bind {f : Option UInt8 → Reader β}
    (hsome : ∀ b rest, SteadyAt (f (some b)) (b :: rest))
    (hnone : SteadyAt (f none) []) (hsame : ∀ b, isDelimiter b = true → f (some b) = f none) :
    SteadyAt (peek >>= f) bytes := by
  cases bytes with
  | cons b rest =>
    refine bind_yields (yields_peek (b :: rest)) (List.suffix_refl _) ?_ (hsome b rest)
    intro tail _
    exact yields_peek (b :: rest ++ tail)
  | nil =>
    -- nothing is left, and what follows begins with a delimiter if with anything
    intro i a k hi h
    obtain ⟨b?, j, hj, hk⟩ := bind_eq_ok h
    obtain ⟨rfl, hrest⟩ := (yields_peek []).eq_of_ok hi hj
    obtain ⟨hsuffix, hyields⟩ := hnone j a k hrest hk
    refine ⟨hsuffix, fun tail htail => ?_⟩
    apply Yields.bind (yields_peek ([] ++ tail))
    cases tail with
    | nil => exact hyields [] htail
    | cons b rest =>
      show (f (some b)).Yields _ _ _
      rw [hsame b (htail b rfl)]
      exact hyields (b :: rest) htail

/-- The byte that comes next, where the end is an error. -/
theorem next_bind {f : Option UInt8 → Reader β} (hsome : ∀ b rest, SteadyAt (f (some b)) rest)
    (hnone : Fails (f none)) : SteadyAt (next >>= f) bytes := by
  cases bytes with
  | cons b rest =>
    refine bind_yields (yields_next b rest) (List.suffix_cons b rest) ?_ (hsome b rest)
    intro tail _
    exact yields_next b (rest ++ tail)
  | nil =>
    intro i a k hi h
    obtain ⟨b?, j, hj, hk⟩ := bind_eq_ok h
    rw [next, hi] at hj
    cases hj
    exact absurd hk (hnone i a k)

/-- Passing over bytes that are there. -/
theorem skip_bind {f : Unit → Reader β} {n : Nat} (hn : n ≤ bytes.length)
    (hf : SteadyAt (f ()) (bytes.drop n)) : SteadyAt (skip n >>= f) bytes := by
  refine bind_yields (yields_skip n bytes) (List.drop_suffix n bytes) ?_ hf
  intro tail _
  have h := yields_skip n (bytes ++ tail)
  rw [List.drop_append_of_le_length hn] at h
  exact h

/-- A run of digits. -/
theorem digits_bind {f : List UInt8 → Reader β} (hf : ∀ found mid, SteadyAt (f found) mid) :
    SteadyAt (digits >>= f) bytes := by
  refine bind_yields (yields_digits bytes) (List.dropWhile_suffix isDigit) ?_ (hf _ _)
  intro tail htail
  have h := yields_digits (bytes ++ tail)
  obtain ⟨htake, hdrop⟩ := takeWhile_isDigit_append bytes htail
  rw [htake, hdrop] at h
  exact h

/-- The digits that come next, still unread. -/
theorem digitsAhead_bind {f : List UInt8 → Reader β}
    (hf : SteadyAt (f (bytes.takeWhile isDigit)) bytes) :
    SteadyAt (digitsAhead >>= f) bytes := by
  have hread : ∀ bytes : List UInt8,
      digitsAhead.Yields bytes (bytes.takeWhile isDigit) bytes := by
    intro bytes i hi
    refine ⟨i, ?_, hi⟩
    rw [digitsAhead, hi]
  refine bind_yields (hread bytes) (List.suffix_refl bytes) ?_ hf
  intro tail htail
  have h := hread (bytes ++ tail)
  rw [(takeWhile_isDigit_append bytes htail).1] at h
  exact h

end SteadyAt

/-! ### The parts of a number -/

theorem steadyAt_assemble (negative : Bool) (significand : Nat) (exponent : Int)
    (bytes : List UInt8) : SteadyAt (assemble negative significand exponent) bytes := by
  rw [assemble]
  cases fromParts significand exponent with
  | none => exact SteadyAt.of_fails (fails_failHere _)
  | some x => exact SteadyAt.pure _ bytes

theorem steadyAt_wholeDigits (bytes : List UInt8) : SteadyAt wholeDigits bytes := by
  refine SteadyAt.next_bind (fun b rest => ?_) (fails_failHere _)
  show SteadyAt (if (!isDigit b) = true then _ else if b = zeroDigit then _ else _ :
    Reader (List UInt8)) rest
  split
  · exact SteadyAt.of_fails (fails_failHere _)
  split
  · refine SteadyAt.peek_bind (fun c rest => ?_) (SteadyAt.pure [b] []) (fun c hc => ?_)
    · show SteadyAt (if isDigit c = true then _ else _ : Reader (List UInt8)) _
      split
      · exact SteadyAt.of_fails (fails_failNext _)
      · exact SteadyAt.pure [b] _
    · show (if isDigit c = true then _ else _ : Reader (List UInt8)) = _
      rw [(isDelimiter_stops hc).1]
      rfl
  · exact SteadyAt.digits_bind fun found mid => SteadyAt.pure _ mid

theorem steadyAt_exponentSign (bytes : List UInt8) : SteadyAt exponentSign bytes := by
  refine SteadyAt.peek_bind (fun b rest => ?_) (SteadyAt.pure false []) (fun b hb => ?_)
  · show SteadyAt (if b = plus then _ else if b = minus then _ else _ : Reader Bool) _
    split
    · exact SteadyAt.skip_bind (by simp) (SteadyAt.pure false _)
    split
    · exact SteadyAt.skip_bind (by simp) (SteadyAt.pure true _)
    · exact SteadyAt.pure false _
  · show (if b = plus then _ else if b = minus then _ else _ : Reader Bool) = _
    rw [if_neg (by rintro rfl; exact absurd hb (by decide)),
      if_neg (by rintro rfl; exact absurd hb (by decide))]

theorem steadyAt_exponentDigit (bytes : List UInt8) : SteadyAt exponentDigit bytes := by
  refine SteadyAt.next_bind (fun b rest => ?_) (fails_failHere _)
  show SteadyAt (if isDigit b = true then _ else _ : Reader UInt8) rest
  split
  · exact SteadyAt.pure b rest
  · exact SteadyAt.of_fails (fails_failHere _)

theorem steadyAt_withExponent (negative : Bool) (significand : Nat) (shift : Int)
    (bytes : List UInt8) : SteadyAt (withExponent negative significand shift) bytes := by
  refine SteadyAt.bind (steadyAt_exponentSign bytes) fun down bytes => ?_
  refine SteadyAt.bind (steadyAt_exponentDigit bytes) fun first bytes => ?_
  apply SteadyAt.digitsAhead_bind
  have hlength : (bytes.takeWhile isDigit).length ≤ bytes.length :=
    (List.takeWhile_prefix isDigit).length_le
  simp only
  split
  · -- the digits make an exponent
    refine SteadyAt.skip_bind hlength (SteadyAt.peek_bind (fun b rest => ?_) ?_ fun b _ => rfl)
    · exact steadyAt_assemble _ _ _ _
    · exact steadyAt_assemble _ _ _ _
  · -- they are too many: an error, or nothing is left of the number
    split
    · apply SteadyAt.of_fails
      exact fails_bind fun _ => fails_failHere _
    · refine SteadyAt.skip_bind hlength (SteadyAt.peek_bind (fun b rest => ?_) ?_ fun b _ => rfl)
      · exact SteadyAt.pure _ _
      · exact SteadyAt.pure _ _

theorem steadyAt_afterSignificand (negative : Bool) (significand : Nat) (shift : Int)
    (bytes : List UInt8) : SteadyAt (afterSignificand negative significand shift) bytes := by
  refine SteadyAt.peek_bind (fun b rest => ?_) (steadyAt_assemble _ _ _ _) (fun b hb => ?_)
  · show SteadyAt (if isExponentMark b = true then _ else _ : Reader Number) _
    split
    · exact SteadyAt.skip_bind (by simp) (steadyAt_withExponent _ _ _ _)
    · exact steadyAt_assemble _ _ _ _
  · show (if isExponentMark b = true then _ else _ : Reader Number) = _
    rw [(isDelimiter_stops hb).2.2]
    rfl

theorem steadyAt_withFraction (negative : Bool) (significand : Nat) (shift : Int)
    (bytes : List UInt8) : SteadyAt (withFraction negative significand shift) bytes := by
  refine SteadyAt.digits_bind fun fraction mid => ?_
  show SteadyAt (if fraction.isEmpty = true then _ else _ : Reader Number) mid
  split
  · apply SteadyAt.of_fails
    apply fails_bind
    intro b?
    cases b? with
    | none => exact fails_failNext _
    | some b => exact fails_failNext _
  · exact steadyAt_afterSignificand _ _ _ mid

theorem steadyAt_ending (negative : Bool) (significand : Nat) (beyond bytes : List UInt8) :
    SteadyAt (numberRest.ending negative significand beyond) bytes := by
  rw [numberRest.ending]
  split
  · exact SteadyAt.pure _ bytes
  · exact steadyAt_assemble _ _ _ bytes

theorem steadyAt_numberRest (negative : Bool) (bytes : List UInt8) :
    SteadyAt (numberRest negative) bytes := by
  refine SteadyAt.bind (steadyAt_wholeDigits bytes) fun whole mid => ?_
  refine SteadyAt.peek_bind (fun b rest => ?_) (steadyAt_ending _ _ _ _) (fun b hb => ?_)
  · show SteadyAt (if b = point then _ else if isExponentMark b = true then _ else _ :
      Reader Number) _
    split
    · exact SteadyAt.skip_bind (by simp) (steadyAt_withFraction _ _ _ _)
    split
    · exact SteadyAt.skip_bind (by simp) (steadyAt_withExponent _ _ _ _)
    · exact steadyAt_ending _ _ _ _
  · obtain ⟨-, hpoint, hmark⟩ := isDelimiter_stops hb
    show (if b = point then _ else if isExponentMark b = true then _ else _ :
      Reader Number) = _
    rw [if_neg hpoint, hmark]
    rfl

theorem steadyAt_number (first : UInt8) (bytes : List UInt8) (hne : bytes ≠ []) :
    SteadyAt (number first) bytes := by
  rw [number]
  split
  · exact SteadyAt.skip_bind (List.length_pos_iff.mpr hne) (steadyAt_numberRest true _)
  · exact steadyAt_numberRest false bytes

end Reader

end Json

end Storyboard
