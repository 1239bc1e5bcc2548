/-
Storyboard/Proofs/Number/Nearest.lean

Which rationals a double is nearest to.

`RoundsTo q x` says in exact rationals what rounding to nearest with ties to even means: no
double is nearer to `q` than `x`, and if another one is as near, then `x` is the even one.
An infinity counts as `2 ^ 1024` there, where the next double would be, so that what is too
large for the doubles is not rounded to the largest of them.

Values are in the order of magnitudes, so only the two neighbours of a double matter: the
rationals that round to it make up an interval (`roundsTo_iff`), and the intervals of two
doubles do not meet (`RoundsTo.unique`).
-/
import Mathlib.Algebra.Order.Field.Power
import Mathlib.Algebra.Order.Field.Rat
import Mathlib.Tactic.Linarith
import Mathlib.Tactic.Positivity
import Mathlib.Tactic.Ring
import Storyboard.Proofs.Number.Rounding

namespace Storyboard

namespace Binary64

/-! ### Units in order -/

theorem unitsOf_of_lt {m : ℕ} (h : m < binade) : unitsOf m = m := if_pos h

/-- A magnitude from `binade` on has an exponent and a fraction. -/
theorem unitsOf_parts (e : ℕ) {f : ℕ} (hf : f < binade) :
    unitsOf (binade * (e + 1) + f) = (binade + f) * 2 ^ e := by
  have hpos : 0 < binade := by decide
  have hlarge : ¬ binade * (e + 1) + f < binade := by
    rw [Nat.mul_succ]
    omega
  have hexponent : (binade * (e + 1) + f) / binade = e + 1 := by
    rw [Nat.mul_add_div hpos, Nat.div_eq_of_lt hf, Nat.add_zero]
  have hfraction : (binade * (e + 1) + f) % binade = f := by
    rw [Nat.mul_add_mod, Nat.mod_eq_of_lt hf]
  rw [unitsOf, if_neg hlarge, hexponent, hfraction, Nat.add_sub_cancel, Nat.shiftLeft_eq]

theorem exists_parts {m : ℕ} (h : binade ≤ m) :
    ∃ e f, f < binade ∧ m = binade * (e + 1) + f := by
  have hpos : 0 < binade := by decide
  refine ⟨m / binade - 1, m % binade, Nat.mod_lt m hpos, ?_⟩
  rw [Nat.sub_add_cancel (Nat.div_pos h hpos), Nat.div_add_mod]

/-- The gap after a double is not larger than the double, but after zero. -/
theorem unitsOf_succ (m : ℕ) :
    ∃ gap, 0 < gap ∧ unitsOf (m + 1) = unitsOf m + gap ∧ (0 < m → gap ≤ unitsOf m) := by
  have hpos : 0 < binade := by decide
  rcases Nat.lt_trichotomy (m + 1) binade with hlt | heq | hgt
  · refine ⟨1, Nat.one_pos, ?_, fun hm => ?_⟩
    · rw [unitsOf_of_lt hlt, unitsOf_of_lt (Nat.lt_of_succ_lt hlt)]
    · rwa [unitsOf_of_lt (Nat.lt_of_succ_lt hlt)]
  · -- from the subnormal numbers to the first of the others
    have hfirst : unitsOf (m + 1) = m + 1 := by
      have hparts := unitsOf_parts 0 hpos
      rwa [Nat.zero_add, Nat.mul_one, Nat.add_zero, Nat.pow_zero, Nat.mul_one, ← heq] at hparts
    have hm : unitsOf m = m := unitsOf_of_lt (by omega)
    exact ⟨1, Nat.one_pos, by rw [hfirst, hm], fun hm' => by rwa [hm]⟩
  · obtain ⟨e, f, hf, rfl⟩ := exists_parts (Nat.le_of_lt_succ hgt)
    refine ⟨2 ^ e, Nat.two_pow_pos e, ?_, fun _ => ?_⟩
    · rw [unitsOf_parts e hf]
      rcases Nat.lt_or_ge (f + 1) binade with hnext | hlast
      · rw [Nat.add_assoc, unitsOf_parts e hnext, ← Nat.add_assoc, Nat.succ_mul]
      · -- the first magnitude of the next binade
        have hcarry : binade * (e + 1) + f + 1 = binade * (e + 1 + 1) + 0 := by
          rw [Nat.mul_succ binade (e + 1)]
          omega
        have hdouble : binade + f + 1 = 2 * binade := by omega
        rw [hcarry, unitsOf_parts (e + 1) hpos, ← Nat.succ_mul, Nat.succ_eq_add_one, hdouble,
          Nat.add_zero, Nat.pow_succ]
        ring
    · rw [unitsOf_parts e hf]
      exact Nat.le_mul_of_pos_left _ (Nat.add_pos_left hpos f)

theorem unitsOf_strictMono : StrictMono unitsOf := by
  refine strictMono_nat_of_lt_succ fun m => ?_
  obtain ⟨gap, hgap, hnext, -⟩ := unitsOf_succ m
  omega

theorem unitsOf_succ_le {m : ℕ} (h : 0 < m) : unitsOf (m + 1) ≤ 2 * unitsOf m := by
  obtain ⟨gap, -, hnext, hle⟩ := unitsOf_succ m
  have := hle h
  omega

theorem unitsOf_zero : unitsOf 0 = 0 := rfl

/-! ### Values -/

/-- The value of a magnitude.  The infinities stand where the next double would be. -/
def valueOf (magnitude : ℕ) : ℚ := unitsOf magnitude / 2 ^ 1074

theorem valueOf_strictMono : StrictMono valueOf := by
  intro m n h
  have hunits : (unitsOf m : ℚ) < unitsOf n := Nat.cast_lt.mpr (unitsOf_strictMono h)
  exact div_lt_div_of_pos_right hunits (by positivity)

theorem valueOf_nonneg (m : ℕ) : 0 ≤ valueOf m := by
  rw [valueOf]
  positivity

theorem valueOf_pos {m : ℕ} (h : 0 < m) : 0 < valueOf m :=
  lt_of_le_of_lt (valueOf_nonneg 0) (valueOf_strictMono h)

/-- Minus one or one. -/
def sign (x : Binary64) : ℚ := if x.negative then -1 else 1

/-- The value of a number.  An infinity counts as `2 ^ 1024`, with its sign. -/
def value (x : Binary64) : ℚ := x.sign * valueOf x.magnitude

theorem sign_eq (x : Binary64) : x.sign = 1 ∨ x.sign = -1 := by
  rw [sign]
  split
  · exact .inr rfl
  · exact .inl rfl

theorem sign_mul_sign (x : Binary64) : x.sign * x.sign = 1 := by
  obtain h | h := x.sign_eq <;> rw [h] <;> norm_num

theorem negative_eq_of_sign {x y : Binary64} (h : x.sign = y.sign) : x.negative = y.negative := by
  revert h
  rw [sign, sign]
  cases x.negative <;> cases y.negative <;> norm_num

/-- The sign of a number that brings `q` to the positive side is that of `q`. -/
theorem sign_of_mul_pos {x : Binary64} {q : ℚ} (h : 0 < x.sign * q) :
    x.sign = if 0 < q then 1 else -1 := by
  obtain hx | hx := x.sign_eq
  · rw [hx, one_mul] at h
    rw [hx, if_pos h]
  · rw [hx] at h
    rw [hx, if_neg (by linarith)]

/-- A distance to a signed value is a distance on the side of the sign. -/
theorem abs_sub_sign_mul (x : Binary64) (q w : ℚ) : |q - x.sign * w| = |x.sign * q - w| := by
  obtain h | h := x.sign_eq
  · rw [h, one_mul, one_mul]
  · rw [h, ← abs_neg]
    congr 1
    ring

theorem pos_of_isZero_eq_false {x : Binary64} (h : x.isZero = false) : 0 < x.magnitude.val :=
  Nat.pos_of_ne_zero (beq_eq_false_iff_ne.mp h)

theorem valueOf_below_lt {x : Binary64} (h : x.isZero = false) :
    valueOf (x.magnitude - 1) < valueOf x.magnitude :=
  valueOf_strictMono (Nat.sub_one_lt_of_lt (pos_of_isZero_eq_false h))

theorem valueOf_lt_above (x : Binary64) : valueOf x.magnitude < valueOf (x.magnitude + 1) :=
  valueOf_strictMono (Nat.lt_succ_self _)

theorem magnitude_eq_zero {x : Binary64} (h : x.isZero = true) : x.magnitude.val = 0 :=
  beq_iff_eq.mp h

theorem value_of_isZero {x : Binary64} (h : x.isZero = true) : x.value = 0 := by
  rw [value, magnitude_eq_zero h, valueOf, unitsOf_zero, Nat.cast_zero, zero_div, mul_zero]

end Binary64

open Binary64

/-! ### Rounding to nearest, ties to even -/

/-- The rational is rounded to the number: none is nearer, and if another one is as near,
then this one has an even fraction. -/
structure RoundsTo (q : ℚ) (x : Binary64) : Prop where
  nearest (y : Binary64) (hy : y.isNaN = false) : |q - x.value| ≤ |q - y.value|
  even (y : Binary64) (hy : y.isNaN = false) (hne : y.value ≠ x.value)
    (htie : |q - x.value| = |q - y.value|) : x.magnitude.val % 2 = 0

/-- A value is rounded to itself. -/
theorem roundsTo_value (x : Binary64) : RoundsTo x.value x where
  nearest y _ := by
    rw [sub_self, abs_zero]
    exact abs_nonneg _
  even y _ hne htie := by
    rw [sub_self, abs_zero, eq_comm, abs_eq_zero, sub_eq_zero] at htie
    exact absurd htie.symm hne

section Distance

variable {q v t : ℚ}

theorem abs_sub_le_iff_of_lt (h : t < v) : |q - v| ≤ |q - t| ↔ t + v ≤ 2 * q := by
  rcases abs_cases (q - v) with ⟨hv, _⟩ | ⟨hv, _⟩ <;>
    rcases abs_cases (q - t) with ⟨ht, _⟩ | ⟨ht, _⟩ <;>
    rw [hv, ht] <;> constructor <;> intro <;> linarith

theorem abs_sub_le_iff_of_gt (h : v < t) : |q - v| ≤ |q - t| ↔ 2 * q ≤ v + t := by
  rcases abs_cases (q - v) with ⟨hv, _⟩ | ⟨hv, _⟩ <;>
    rcases abs_cases (q - t) with ⟨ht, _⟩ | ⟨ht, _⟩ <;>
    rw [hv, ht] <;> constructor <;> intro <;> linarith

theorem abs_sub_eq_iff_of_ne (h : t ≠ v) : |q - v| = |q - t| ↔ t + v = 2 * q := by
  rw [abs_eq_abs]
  constructor
  · rintro (heq | heq)
    · exact absurd (sub_right_injective heq).symm h
    · linarith
  · intro heq
    right
    linarith

end Distance

namespace Binary64

/-! ### The interval of a double -/

/-- The absolute value is one that rounds to the magnitude: it lies between the points half-way
to the magnitude below and half-way to the one above, which belong to an even magnitude. -/
def Encloses (x : Binary64) (q : ℚ) : Prop :=
  let m := x.magnitude.val
  if m % 2 = 0 then valueOf (m - 1) + valueOf m ≤ 2 * q ∧ 2 * q ≤ valueOf m + valueOf (m + 1)
  else valueOf (m - 1) + valueOf m < 2 * q ∧ 2 * q < valueOf m + valueOf (m + 1)

variable {x y : Binary64} {q : ℚ}

theorem Encloses.le (h : x.Encloses q) :
    valueOf (x.magnitude - 1) + valueOf x.magnitude ≤ 2 * q ∧
      2 * q ≤ valueOf x.magnitude + valueOf (x.magnitude + 1) := by
  rw [Encloses] at h
  split at h
  · exact h
  · exact ⟨h.1.le, h.2.le⟩

/-- The ends belong to the interval of an even magnitude only. -/
theorem Encloses.even (h : x.Encloses q)
    (hend : 2 * q = valueOf (x.magnitude - 1) + valueOf x.magnitude ∨
      2 * q = valueOf x.magnitude + valueOf (x.magnitude + 1)) : x.magnitude.val % 2 = 0 := by
  rw [Encloses] at h
  split at h
  · assumption
  · rcases hend with hend | hend
    · exact absurd hend h.1.ne'
    · exact absurd hend h.2.ne

theorem encloses_of_le (hlow : valueOf (x.magnitude - 1) + valueOf x.magnitude ≤ 2 * q)
    (hhigh : 2 * q ≤ valueOf x.magnitude + valueOf (x.magnitude + 1))
    (heven : 2 * q = valueOf (x.magnitude - 1) + valueOf x.magnitude ∨
      2 * q = valueOf x.magnitude + valueOf (x.magnitude + 1) → x.magnitude.val % 2 = 0) :
    x.Encloses q := by
  rw [Encloses]
  split
  · exact ⟨hlow, hhigh⟩
  · rename_i hodd
    exact ⟨lt_of_le_of_ne hlow fun h => hodd (heven (.inl h.symm)),
      lt_of_le_of_ne hhigh fun h => hodd (heven (.inr h))⟩

theorem Encloses.between {a b : ℚ} (ha : x.Encloses a) (hb : x.Encloses b) (haq : a ≤ q)
    (hqb : q ≤ b) : x.Encloses q := by
  rw [Encloses] at ha hb ⊢
  split at ha
  · rename_i heven
    rw [if_pos heven] at hb ⊢
    exact ⟨by linarith, by linarith⟩
  · rename_i hodd
    rw [if_neg hodd] at hb ⊢
    exact ⟨by linarith, by linarith⟩

/-- The interval of a double other than zero has positive numbers only. -/
theorem Encloses.pos (h : x.Encloses q) (hnonzero : x.isZero = false) : 0 < q := by
  have hlow := h.le.1
  have hvalue := valueOf_pos (pos_of_isZero_eq_false hnonzero)
  have hbelow := valueOf_nonneg (x.magnitude - 1)
  linarith

/-- A value on the line of doubles is that of the magnitude, or not between its neighbours. -/
theorem signed_value_cases (x y : Binary64) :
    x.sign * y.value ≤ valueOf (x.magnitude - 1) ∨ x.sign * y.value = valueOf x.magnitude ∨
      valueOf (x.magnitude + 1) ≤ x.sign * y.value := by
  have hsigns : x.sign * y.sign = 1 ∨ x.sign * y.sign = -1 := by
    obtain hx | hx := x.sign_eq <;> obtain hy | hy := y.sign_eq <;> rw [hx, hy] <;> norm_num
  rw [value, ← mul_assoc]
  obtain h | h := hsigns
  · rw [h, one_mul]
    rcases Nat.lt_trichotomy y.magnitude x.magnitude with hlt | heq | hgt
    · exact .inl (valueOf_strictMono.monotone (Nat.le_sub_one_of_lt hlt))
    · exact .inr (.inl (congrArg valueOf heq))
    · exact .inr (.inr (valueOf_strictMono.monotone hgt))
  · -- on the other side of zero
    left
    have hy := valueOf_nonneg y.magnitude
    have hbelow := valueOf_nonneg (x.magnitude - 1)
    rw [h]
    linarith

/-- The number with the same sign and another magnitude. -/
def withMagnitude (x : Binary64) (m : ℕ) (h : m ≤ infinity) : Binary64 :=
  ⟨x.negative, ⟨m, Nat.lt_of_le_of_lt h (by decide)⟩⟩

section Neighbours

variable {m : ℕ} (h : m ≤ infinity)

theorem isNaN_withMagnitude (x : Binary64) : (x.withMagnitude m h).isNaN = false :=
  decide_eq_false (Nat.not_lt.mpr h)

theorem abs_sub_withMagnitude (x : Binary64) (q : ℚ) :
    |q - (x.withMagnitude m h).value| = |x.sign * q - valueOf m| :=
  abs_sub_sign_mul x q _

theorem withMagnitude_value_ne (hne : valueOf m ≠ valueOf x.magnitude) :
    (x.withMagnitude m h).value ≠ x.value := by
  intro heq
  have hsign : x.sign ≠ 0 := fun h0 => by simpa [h0] using x.sign_mul_sign
  exact hne (mul_left_cancel₀ hsign heq)

end Neighbours

theorem abs_sub_value (x : Binary64) (q : ℚ) :
    |q - x.value| = |x.sign * q - valueOf x.magnitude| :=
  abs_sub_sign_mul x q _

/-- What rounds to a double is not nearer to its neighbours. -/
theorem encloses_of_roundsTo (hfinite : x.isFinite = true) (hnonzero : x.isZero = false)
    (h : RoundsTo q x) : x.Encloses (x.sign * q) := by
  have hdown := valueOf_below_lt hnonzero
  have hup := valueOf_lt_above x
  have hlt : x.magnitude.val < infinity := isFinite_iff.mp hfinite
  have hbelow : x.magnitude.val - 1 ≤ infinity := by omega
  have habove : x.magnitude.val + 1 ≤ infinity := hlt
  have hlow := h.nearest _ (isNaN_withMagnitude hbelow x)
  have hhigh := h.nearest _ (isNaN_withMagnitude habove x)
  rw [abs_sub_value, abs_sub_withMagnitude, abs_sub_le_iff_of_lt hdown] at hlow
  rw [abs_sub_value, abs_sub_withMagnitude, abs_sub_le_iff_of_gt hup] at hhigh
  refine encloses_of_le hlow hhigh ?_
  -- half-way to a neighbour is a tie with it
  rintro (hend | hend)
  · refine h.even _ (isNaN_withMagnitude hbelow x) (withMagnitude_value_ne hbelow hdown.ne) ?_
    rw [abs_sub_value, abs_sub_withMagnitude, abs_sub_eq_iff_of_ne hdown.ne, hend]
  · refine h.even _ (isNaN_withMagnitude habove x) (withMagnitude_value_ne habove hup.ne') ?_
    rw [abs_sub_value, abs_sub_withMagnitude, abs_sub_eq_iff_of_ne hup.ne', hend, add_comm]

/-- What is not nearer to the neighbours is not nearer to any other double. -/
theorem roundsTo_of_encloses (hnonzero : x.isZero = false) (h : x.Encloses (x.sign * q)) :
    RoundsTo q x := by
  have hdown := valueOf_below_lt hnonzero
  have hup := valueOf_lt_above x
  obtain ⟨hlow, hhigh⟩ := h.le
  have hother (y : Binary64) : |q - y.value| = |x.sign * q - x.sign * y.value| := by
    rw [← abs_sub_sign_mul, ← mul_assoc, x.sign_mul_sign, one_mul]
  constructor
  · intro y _
    rw [abs_sub_value, hother]
    rcases signed_value_cases x y with hy | hy | hy
    · rw [abs_sub_le_iff_of_lt (lt_of_le_of_lt hy hdown)]
      linarith
    · rw [hy]
    · rw [abs_sub_le_iff_of_gt (lt_of_lt_of_le hup hy)]
      linarith
  · intro y _ hne htie
    have hvalue : x.sign * y.value ≠ valueOf x.magnitude := by
      intro heq
      apply hne
      show y.value = x.sign * valueOf x.magnitude
      rw [← heq, ← mul_assoc, x.sign_mul_sign, one_mul]
    rw [abs_sub_value, hother, abs_sub_eq_iff_of_ne hvalue] at htie
    refine h.even ?_
    rcases signed_value_cases x y with hy | hy | hy
    · left
      linarith
    · exact absurd hy hvalue
    · right
      linarith

/-- **What rounds to a double is an interval.** -/
theorem roundsTo_iff (hfinite : x.isFinite = true) (hnonzero : x.isZero = false) :
    RoundsTo q x ↔ x.Encloses (x.sign * q) :=
  ⟨encloses_of_roundsTo hfinite hnonzero, roundsTo_of_encloses hnonzero⟩

/-! ### One double only -/

theorem not_lt_of_encloses (hx : x.Encloses q) (hy : y.Encloses q) :
    ¬ x.magnitude.val < y.magnitude.val := by
  intro hlt
  have hx' := hx.le.2
  have hy' := hy.le.1
  have hbelow : valueOf x.magnitude ≤ valueOf (y.magnitude - 1) :=
    valueOf_strictMono.monotone (Nat.le_sub_one_of_lt hlt)
  have habove : valueOf (x.magnitude + 1) ≤ valueOf y.magnitude :=
    valueOf_strictMono.monotone hlt
  -- both have the point half-way between them, so both are even, and another one is between them
  have hex := hx.even (.inr (by linarith))
  have hey := hy.even (.inl (by linarith))
  have hbetween : valueOf (x.magnitude + 1) < valueOf y.magnitude := valueOf_strictMono (by omega)
  linarith

end Binary64

/-- Doubles other than zero do not share what rounds to them. -/
theorem RoundsTo.unique {q : ℚ} {x y : Binary64} (hx : RoundsTo q x) (hy : RoundsTo q y)
    (hxf : x.isFinite = true) (hyf : y.isFinite = true) (hx0 : x.isZero = false)
    (hy0 : y.isZero = false) : x = y := by
  rw [roundsTo_iff hxf hx0] at hx
  rw [roundsTo_iff hyf hy0] at hy
  have hsign : x.sign = y.sign :=
    (sign_of_mul_pos (hx.pos hx0)).trans (sign_of_mul_pos (hy.pos hy0)).symm
  rw [← hsign] at hy
  have hmagnitude : x.magnitude.val = y.magnitude.val :=
    Nat.le_antisymm (Nat.not_lt.mp (not_lt_of_encloses hy hx))
      (Nat.not_lt.mp (not_lt_of_encloses hx hy))
  obtain ⟨nx, mx⟩ := x
  obtain ⟨ny, my⟩ := y
  cases Fin.ext hmagnitude
  cases negative_eq_of_sign hsign
  rfl

end Storyboard
