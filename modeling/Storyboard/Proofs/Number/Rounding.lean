/-
Storyboard/Proofs/Number/Rounding.lean

Powers of two bound rounded numbers.

A power of two is itself a double, so rounding does not carry a value past it:
what is at most `2 ^ k` units is rounded to at most `2 ^ k` units, and likewise
from below.  Magnitudes are in order, and `2 ^ k` units have the magnitude
`(k - 51) * binade`, so both bounds are bounds of magnitudes
(`nearestMagnitude_le`, `le_nearestMagnitude`, `unitsOf_le`, `le_unitsOf`).

This is all that is needed to see that no step of reading a number leaves the
finite doubles unnoticed: a significand below `2 ^ 64` is a finite double,
dividing by powers of ten never leads above it (`moderate_scaleDown`), and
multiplying is refused where it overflows (`finite_scaleUp`).
-/
import Mathlib.Algebra.Group.Nat.Defs
import Storyboard.Json.Numbers

namespace Storyboard

namespace Binary64

/-! ### Rounding a quotient -/

theorem roundHalfEven_le {num den bound : Nat} (hden : 0 < den) (h : num ≤ bound * den) :
    roundHalfEven num den ≤ bound := by
  have hquotient : num / den ≤ bound := Nat.div_le_of_le_mul (Nat.mul_comm bound den ▸ h)
  rw [roundHalfEven]
  split
  · rename_i hup
    -- the value is not a whole number, so its quotient is below the bound
    have hrest : 0 < num % den := by
      rcases hup with hup | ⟨hup, -⟩ <;> omega
    have hsum := Nat.div_add_mod num den
    have hne : num / den ≠ bound := by
      intro heq
      rw [heq, Nat.mul_comm den] at hsum
      omega
    omega
  · exact hquotient

theorem le_roundHalfEven {num den bound : Nat} (hden : 0 < den) (h : bound * den ≤ num) :
    bound ≤ roundHalfEven num den := by
  have hquotient : bound ≤ num / den := (Nat.le_div_iff_mul_le hden).mpr h
  rw [roundHalfEven]
  split
  · exact Nat.le_succ_of_le hquotient
  · exact hquotient

/-! ### Powers of two -/

theorem binade_eq : binade = 2 ^ 52 := rfl

/-- The magnitude of `2 ^ k` units, for `k` from 52 on. -/
def magnitudeOfPow (k : Nat) : Nat := (k - 51) * binade

theorem magnitudeOfPow_le {k n : Nat} (h : k ≤ n + 51) : magnitudeOfPow k ≤ n * binade :=
  Nat.mul_le_mul_right binade (by omega)

theorem le_magnitudeOfPow {k n : Nat} (h : n + 51 ≤ k) : n * binade ≤ magnitudeOfPow k :=
  Nat.mul_le_mul_right binade (by omega)

/-- Rounding does not carry a value past a power of two above it. -/
theorem nearestMagnitude_le {num den k : Nat} (hden : 0 < den) (hk : 53 ≤ k)
    (h : num <<< 1074 ≤ den <<< k) : nearestMagnitude num den ≤ magnitudeOfPow k := by
  simp only [nearestMagnitude]
  generalize num <<< 1074 = scaled at h
  apply Nat.le_trans (Nat.min_le_right _ _)
  rw [Nat.shiftLeft_eq] at h
  have hq : scaled / den ≤ 2 ^ k := Nat.div_le_of_le_mul h
  have hscaled : scaled < den * (scaled / den + 1) := Nat.lt_mul_div_succ scaled hden
  generalize hL : (scaled / den).log2 = L
  have hstep : 0 < den <<< (L - 52) := by
    rw [Nat.shiftLeft_eq]
    exact Nat.mul_pos hden (Nat.two_pow_pos _)
  rcases Nat.lt_or_eq_of_le hq with hlt | heq
  · -- below the power of two: two binades above the bits that are dropped
    have hLk : L < k := by
      rw [← hL]
      by_cases h0 : scaled / den = 0
      · rw [h0, Nat.log2_zero]
        omega
      · exact (Nat.log2_lt h0).mpr hlt
    have htop : scaled / den + 1 ≤ 2 * (2 ^ 52 * 2 ^ (L - 52)) := by
      have hself : scaled / den < 2 ^ (L + 1) := hL ▸ Nat.lt_log2_self
      have hmono : 2 ^ (L + 1) ≤ 2 ^ (1 + (52 + (L - 52))) :=
        Nat.pow_le_pow_right (by decide) (by omega)
      rw [Nat.pow_add 2 1, Nat.pow_add 2 52] at hmono
      exact Nat.le_trans hself hmono
    have hround : roundHalfEven scaled (den <<< (L - 52)) ≤ 2 * binade := by
      apply roundHalfEven_le hstep
      calc scaled ≤ den * (scaled / den + 1) := Nat.le_of_lt hscaled
        _ ≤ den * (2 * (2 ^ 52 * 2 ^ (L - 52))) := Nat.mul_le_mul_left den htop
        _ = 2 * binade * den <<< (L - 52) := by
          rw [Nat.shiftLeft_eq, binade_eq, ← Nat.mul_assoc 2, Nat.mul_left_comm]
    calc (L - 52) * binade + roundHalfEven scaled (den <<< (L - 52))
        ≤ (L - 52) * binade + 2 * binade := Nat.add_le_add_left hround _
      _ = (L - 52 + 2) * binade := (Nat.add_mul _ _ _).symm
      _ ≤ magnitudeOfPow k := le_magnitudeOfPow (by omega)
  · -- the power of two itself
    have hLk : L = k := by
      rw [← hL, heq, Nat.log2_two_pow]
    have hround : roundHalfEven scaled (den <<< (L - 52)) ≤ 1 * binade := by
      apply roundHalfEven_le hstep
      have hpow : 2 ^ k = 2 ^ 52 * 2 ^ (L - 52) := by
        rw [← Nat.pow_add, hLk]
        congr 1
        omega
      rw [Nat.shiftLeft_eq, Nat.one_mul, binade_eq, Nat.mul_left_comm, ← hpow]
      exact h
    calc (L - 52) * binade + roundHalfEven scaled (den <<< (L - 52))
        ≤ (L - 52) * binade + 1 * binade := Nat.add_le_add_left hround _
      _ = (L - 52 + 1) * binade := (Nat.add_mul _ _ _).symm
      _ ≤ magnitudeOfPow k := le_magnitudeOfPow (by omega)

/-- Rounding does not carry a value past a power of two below it. -/
theorem le_nearestMagnitude {num den k : Nat} (hden : 0 < den) (hk : 52 ≤ k) (hfits : k ≤ 2098)
    (h : den <<< k ≤ num <<< 1074) : magnitudeOfPow k ≤ nearestMagnitude num den := by
  simp only [nearestMagnitude]
  generalize num <<< 1074 = scaled at h
  rw [Nat.shiftLeft_eq, Nat.mul_comm] at h
  have hq : 2 ^ k ≤ scaled / den := (Nat.le_div_iff_mul_le hden).mpr h
  have h0 : scaled / den ≠ 0 := Nat.ne_of_gt (Nat.lt_of_lt_of_le (Nat.two_pow_pos k) hq)
  have hself : 2 ^ (scaled / den).log2 ≤ scaled / den := Nat.log2_self_le h0
  have hkL : k ≤ (scaled / den).log2 := (Nat.le_log2 h0).mpr hq
  generalize (scaled / den).log2 = L at hself hkL
  have hround : 1 * binade ≤ roundHalfEven scaled (den <<< (L - 52)) := by
    apply le_roundHalfEven
    · rw [Nat.shiftLeft_eq]
      exact Nat.mul_pos hden (Nat.two_pow_pos _)
    · have hpow : 2 ^ L = 2 ^ 52 * 2 ^ (L - 52) := by
        rw [← Nat.pow_add]
        congr 1
        omega
      rw [Nat.shiftLeft_eq, Nat.one_mul, binade_eq, Nat.mul_left_comm, ← hpow, Nat.mul_comm]
      exact (Nat.le_div_iff_mul_le hden).mp hself
  apply Nat.le_min.mpr
  refine ⟨magnitudeOfPow_le (by omega), ?_⟩
  calc magnitudeOfPow k ≤ (L - 52 + 1) * binade := magnitudeOfPow_le (by omega)
    _ = (L - 52) * binade + 1 * binade := Nat.add_mul _ _ _
    _ ≤ (L - 52) * binade + roundHalfEven scaled (den <<< (L - 52)) := Nat.add_le_add_left hround _

/-- Magnitudes up to that of a power of two have at most as many units. -/
theorem unitsOf_le {m k : Nat} (hk : 53 ≤ k) (h : m ≤ magnitudeOfPow k) : unitsOf m ≤ 2 ^ k := by
  rw [unitsOf]
  split
  · rename_i hsmall
    calc m ≤ 2 ^ 52 := Nat.le_of_lt hsmall
      _ ≤ 2 ^ k := Nat.pow_le_pow_right (by decide) (by omega)
  · rename_i hlarge
    have hpositive : 1 ≤ m / binade := Nat.div_pos (Nat.le_of_not_lt hlarge) (by decide)
    have hexponent : m / binade ≤ k - 51 :=
      Nat.div_le_of_le_mul (Nat.mul_comm (k - 51) binade ▸ h)
    have hfraction : m % binade < binade := Nat.mod_lt m (by decide)
    rw [Nat.shiftLeft_eq]
    rcases Nat.lt_or_eq_of_le hexponent with hlt | heq
    · calc (binade + m % binade) * 2 ^ (m / binade - 1)
          ≤ (binade + binade) * 2 ^ (m / binade - 1) :=
            Nat.mul_le_mul_right _ (Nat.add_le_add_left (Nat.le_of_lt hfraction) binade)
        _ = 2 ^ (53 + (m / binade - 1)) := (Nat.pow_add 2 53 _).symm
        _ ≤ 2 ^ k := Nat.pow_le_pow_right (by decide) (by omega)
    · -- the power of two itself has no fraction
      have hzero : m % binade = 0 := by
        have hsum := Nat.div_add_mod m binade
        rw [heq, Nat.mul_comm] at hsum
        rw [magnitudeOfPow] at h
        omega
      rw [hzero, Nat.add_zero, heq, binade_eq, ← Nat.pow_add]
      exact Nat.pow_le_pow_right (by decide) (by omega)

/-- Magnitudes from that of a power of two on have at least as many units. -/
theorem le_unitsOf {m k : Nat} (hk : 52 ≤ k) (h : magnitudeOfPow k ≤ m) : 2 ^ k ≤ unitsOf m := by
  have hexponent : k - 51 ≤ m / binade := (Nat.le_div_iff_mul_le (by decide)).mpr h
  have hlarge : ¬ m < binade :=
    Nat.not_lt.mpr (Nat.le_trans (Nat.le_mul_of_pos_left binade (by omega)) h)
  rw [unitsOf, if_neg hlarge, Nat.shiftLeft_eq]
  calc 2 ^ k ≤ 2 ^ (52 + (m / binade - 1)) := Nat.pow_le_pow_right (by decide) (by omega)
    _ = binade * 2 ^ (m / binade - 1) := Nat.pow_add 2 52 _
    _ ≤ (binade + m % binade) * 2 ^ (m / binade - 1) :=
      Nat.mul_le_mul_right _ (Nat.le_add_right _ _)

/-! ### Numbers up to `2 ^ 64` -/

theorem isFinite_iff {x : Binary64} : x.isFinite = true ↔ x.magnitude.val < infinity :=
  decide_eq_true_iff

/-- A number whose absolute value is at most `2 ^ 64`. -/
def Moderate (x : Binary64) : Prop := x.magnitude.val ≤ magnitudeOfPow (64 + 1074)

theorem Moderate.isFinite {x : Binary64} (h : x.Moderate) : x.isFinite = true :=
  isFinite_iff.mpr (Nat.lt_of_le_of_lt h (by decide))

theorem shiftLeft_le_of_le_pow {n j u : Nat} (h : n ≤ 2 ^ j) : n <<< u ≤ 1 <<< (j + u) := by
  rw [Nat.shiftLeft_eq, Nat.shiftLeft_eq, Nat.one_mul, Nat.pow_add]
  exact Nat.mul_le_mul_right _ h

theorem moderate_ofRatio (negative : Bool) {n : Nat} (h : n ≤ 2 ^ 64) :
    (ofRatio negative n 1).Moderate :=
  nearestMagnitude_le (by decide) (by decide) (shiftLeft_le_of_le_pow h)

/-- A power of ten is at least one. -/
theorem le_units_tenPow (e : Nat) : 2 ^ 1074 ≤ (tenPow e).units := by
  have hone : ∀ u, 1 <<< u ≤ Nat.pow 10 e <<< u := by
    intro u
    rw [Nat.shiftLeft_eq, Nat.shiftLeft_eq]
    exact Nat.mul_le_mul_right _ (Nat.pow_pos (by decide))
  exact le_unitsOf (by decide) (le_nearestMagnitude (by decide) (by decide) (by decide) (hone 1074))

/-- Dividing by a power of ten leads to nothing larger. -/
theorem Moderate.div_tenPow {x : Binary64} (h : x.Moderate) (e : Nat) :
    (x.div (tenPow e)).Moderate := by
  have hshift : ∀ {a b k u : Nat}, a ≤ 2 ^ k → 2 ^ u ≤ b → a <<< u ≤ b <<< k := by
    intro a b k u ha hb
    rw [Nat.shiftLeft_eq, Nat.shiftLeft_eq, Nat.mul_comm b]
    exact Nat.mul_le_mul ha hb
  have hten := le_units_tenPow e
  have hpositive : 0 < (tenPow e).units := Nat.lt_of_lt_of_le (Nat.two_pow_pos _) hten
  exact nearestMagnitude_le hpositive (by decide) (hshift (unitsOf_le (by decide) h) hten)

end Binary64

/-! ### Scaled numbers -/

namespace Json

open Binary64

@[simp] theorem isFinite_signed (negative : Bool) (x : Binary64) :
    (signed negative x).isFinite = x.isFinite := by
  rw [signed]
  split <;> rfl

theorem moderate_scaleDown {x : Binary64} (h : x.Moderate) (e : Nat) : (scaleDown x e).Moderate := by
  fun_induction scaleDown x e with
  | case1 x e _ => exact h.div_tenPow e
  | case2 x e _ _ => exact h
  | case3 x e _ _ ih => exact ih (h.div_tenPow 308)

theorem finite_scaleUp {x y : Binary64} (hx : x.isFinite = true) {e : Nat}
    (h : scaleUp x e = some y) : y.isFinite = true := by
  rw [scaleUp] at h
  split at h
  · -- a product is a magnitude up to infinity, and infinity is refused
    simp only at h
    split at h
    · cases h
    · rename_i hnot
      obtain rfl := Option.some.inj h
      have hle : (x.mul (tenPow e)).magnitude.val ≤ infinity := Nat.min_le_left _ _
      rw [isInfinite, beq_iff_eq] at hnot
      exact isFinite_iff.mpr (Nat.lt_of_le_of_ne hle hnot)
  · split at h
    · obtain rfl := Option.some.inj h
      exact hx
    · cases h

/-- A number that is put together from its parts is finite. -/
theorem finite_fromParts {significand : Nat} (hsignificand : significand ≤ maxSignificand)
    {exponent : Int} {x : Binary64} (h : fromParts significand exponent = some x) :
    x.isFinite = true := by
  have hmoderate : (ofNat significand).Moderate :=
    moderate_ofRatio false (Nat.le_trans hsignificand (by decide))
  cases exponent with
  | ofNat n => exact finite_scaleUp hmoderate.isFinite h
  | negSucc n =>
    obtain rfl := Option.some.inj h
    exact (moderate_scaleDown hmoderate (n + 1)).isFinite

end Json

end Storyboard
