/-
Storyboard/Proofs/Number/Grids.lean

What the search on decimal grids finds.

The search counts in units of `10 ^ -1074`; its test of a point is the one for the interval
of the double (`covers_iff`).  If a grid has a point in the interval then one of the two
neighbours of the double on this grid is such a point, since the double is in the interval
too, so a grid that is passed over has none (`gridPoint_isSome`).  And no grid coarser than
the one where the search begins has any: its first point is too far out
(`not_covers_of_coarser`).

So the decimal that is found lies in the interval, and no coarser grid has a point there
(`shortest_spec`).  Everything else follows from that: its digits do not end with a zero,
and whatever decimal rounds to the double has at least as many (`digits_lt_of_encloses`).
-/
import Storyboard.Number.Shortest
import Storyboard.Proofs.Number.Nearest

namespace Storyboard

/-- The value of a decimal. -/
def Decimal.value (d : Decimal) : ℚ := d.digits * 10 ^ d.exponent

theorem Decimal.value_mk (digits : ℕ) (exponent : ℤ) :
    (⟨digits, exponent⟩ : Decimal).value = digits * 10 ^ exponent := rfl

namespace Binary64

variable {x : Binary64}

/-! ### Units of `10 ^ -1074` -/

/-- What a number of units of `10 ^ -1074` is worth. -/
def gridValue (c : ℕ) : ℚ := c / 10 ^ 1074

theorem gridValue_le_iff {a b : ℕ} : gridValue a ≤ gridValue b ↔ a ≤ b := by
  rw [gridValue, gridValue, div_le_div_iff_of_pos_right (by positivity), Nat.cast_le]

theorem gridValue_lt_iff {a b : ℕ} : gridValue a < gridValue b ↔ a < b := by
  rw [gridValue, gridValue, div_lt_div_iff_of_pos_right (by positivity), Nat.cast_lt]

theorem two_mul_gridValue (c : ℕ) : 2 * gridValue c = gridValue (2 * c) := by
  rw [gridValue, gridValue, Nat.cast_mul, Nat.cast_ofNat, mul_div_assoc]

theorem gridValue_add (a b : ℕ) : gridValue (a + b) = gridValue a + gridValue b := by
  rw [gridValue, gridValue, gridValue, Nat.cast_add, add_div]

/-- The factors five of the ratio cancel. -/
theorem gridValue_mul_unitRatio (u : ℕ) : gridValue (u * unitRatio) = u / 2 ^ 1074 := by
  delta gridValue unitRatio
  generalize 1074 = n
  have hten : (10 : ℚ) ^ n = 2 ^ n * 5 ^ n := by
    rw [← mul_pow]
    norm_num
  have hne : (5 : ℚ) ^ n ≠ 0 := by positivity
  rw [Nat.pow_eq, Nat.cast_mul, Nat.cast_pow, Nat.cast_ofNat, hten, mul_div_mul_right _ _ hne]

theorem gridValue_decimalUnits (x : Binary64) :
    gridValue x.decimalUnits = valueOf x.magnitude := gridValue_mul_unitRatio x.units

theorem gridValue_lowerEnd (x : Binary64) :
    gridValue x.lowerEnd = valueOf (x.magnitude - 1) + valueOf x.magnitude := by
  rw [lowerEnd, Nat.add_mul, gridValue_add, gridValue_mul_unitRatio, gridValue_mul_unitRatio]
  rfl

theorem gridValue_upperEnd (x : Binary64) :
    gridValue x.upperEnd = valueOf x.magnitude + valueOf (x.magnitude + 1) := by
  rw [upperEnd, Nat.add_mul, gridValue_add, gridValue_mul_unitRatio, gridValue_mul_unitRatio]
  rfl

/-- The test of a point is the one for the interval. -/
theorem covers_iff {c : ℕ} : x.covers c = true ↔ x.Encloses (gridValue c) := by
  rw [covers, Encloses, ← gridValue_lowerEnd, ← gridValue_upperEnd, two_mul_gridValue]
  split
  · rw [Bool.and_eq_true, decide_eq_true_iff, decide_eq_true_iff, gridValue_le_iff,
      gridValue_le_iff]
  · rw [Bool.and_eq_true, decide_eq_true_iff, decide_eq_true_iff, gridValue_lt_iff,
      gridValue_lt_iff]

theorem covers_between {a b c : ℕ} (ha : x.covers a = true) (hb : x.covers b = true) (hac : a ≤ c)
    (hcb : c ≤ b) : x.covers c = true :=
  covers_iff.mpr ((covers_iff.mp ha).between (covers_iff.mp hb) (gridValue_le_iff.mpr hac)
    (gridValue_le_iff.mpr hcb))

/-- A double other than zero is inside its interval. -/
theorem covers_decimalUnits (hnonzero : x.isZero = false) : x.covers x.decimalUnits = true := by
  have hdown := valueOf_below_lt hnonzero
  have hup := valueOf_lt_above x
  rw [covers_iff, gridValue_decimalUnits]
  apply encloses_of_le
  · linarith
  · linarith
  · rintro (hend | hend) <;> linarith

theorem not_covers_zero (hnonzero : x.isZero = false) : x.covers 0 = false := by
  refine eq_false_of_ne_true fun h => ?_
  have hpos := (covers_iff.mp h).pos hnonzero
  rw [gridValue, Nat.cast_zero, zero_div] at hpos
  exact lt_irrefl 0 hpos

/-! ### One grid -/

theorem nearerNeighbour_eq (tie : Tie) (value step below : ℕ) :
    nearerNeighbour tie value step below = below ∨
      nearerNeighbour tie value step below = below + 1 := by
  unfold nearerNeighbour
  cases tie with
  | up =>
    dsimp only
    split
    · exact .inl rfl
    · exact .inr (ite_self _)
  | toEven =>
    dsimp only
    split
    · exact .inl rfl
    split
    · exact .inr rfl
    split
    · exact .inl rfl
    · exact .inr rfl

/-- A point that a grid offers lies in the interval. -/
theorem covers_of_gridPoint {tie : Tie} {j d : ℕ} (h : x.gridPoint tie j = some d) :
    x.covers (d * 10 ^ j) = true := by
  rw [gridPoint] at h
  split at h
  · rename_i hbelow habove
    obtain rfl := Option.some.inj h
    obtain heq | heq := nearerNeighbour_eq tie x.decimalUnits (Nat.pow 10 j)
      (x.decimalUnits / Nat.pow 10 j)
    · rw [heq]
      exact hbelow
    · rw [heq]
      exact habove
  · rename_i hbelow _
    obtain rfl := Option.some.inj h
    exact hbelow
  · rename_i _ habove
    obtain rfl := Option.some.inj h
    exact habove
  · cases h

/-- A grid with a point in the interval offers one. -/
theorem gridPoint_isSome (hnonzero : x.isZero = false) (tie : Tie) {j c : ℕ}
    (h : x.covers (c * 10 ^ j) = true) : (x.gridPoint tie j).isSome = true := by
  have hself := covers_decimalUnits hnonzero
  have hstep : 0 < Nat.pow 10 j := Nat.pow_pos (by decide)
  let below := x.decimalUnits / Nat.pow 10 j
  have hbelow : below * Nat.pow 10 j ≤ x.decimalUnits := Nat.div_mul_le_self _ _
  have habove : x.decimalUnits ≤ (below + 1) * Nat.pow 10 j := by
    rw [Nat.mul_comm]
    exact (Nat.lt_mul_div_succ _ hstep).le
  change x.covers (c * Nat.pow 10 j) = true at h
  have hneighbour : x.covers (below * Nat.pow 10 j) = true ∨
      x.covers ((below + 1) * Nat.pow 10 j) = true := by
    rcases Nat.lt_or_ge below c with hlt | hge
    · exact .inr (covers_between hself h habove (Nat.mul_le_mul_right _ hlt))
    · exact .inl (covers_between h hself (Nat.mul_le_mul_right _ hge) hbelow)
  rw [gridPoint]
  split
  · rfl
  · rfl
  · rfl
  · -- one of the two is in the interval
    rename_i hnotBelow hnotAbove
    obtain hcovers | hcovers := hneighbour
    · cases hcovers.symm.trans hnotBelow
    · cases hcovers.symm.trans hnotAbove

/-! ### From grid to grid -/

/-- What is found lies in the interval, and the coarser grids that were searched have nothing
there. -/
theorem searchGrid_spec (hnonzero : x.isZero = false) (tie : Tie) (coarsest : ℕ) :
    let found := x.searchGrid tie coarsest
    x.covers (found.1 * 10 ^ found.2) = true ∧
      ∀ k, found.2 < k → k ≤ coarsest → ∀ c, x.covers (c * 10 ^ k) = false := by
  induction coarsest with
  | zero =>
    refine ⟨?_, fun k hk hle => absurd hk (Nat.not_lt.mpr hle)⟩
    rw [searchGrid, Nat.pow_zero, Nat.mul_one]
    exact covers_decimalUnits hnonzero
  | succ j ih =>
    rw [searchGrid]
    cases hpoint : x.gridPoint tie (j + 1) with
    | some d => exact ⟨covers_of_gridPoint hpoint, fun k hk hle => absurd hk (Nat.not_lt.mpr hle)⟩
    | none =>
      refine ⟨ih.1, fun k hk hle c => ?_⟩
      rcases Nat.lt_or_eq_of_le hle with hlt | rfl
      · exact ih.2 k hk (Nat.le_of_lt_succ hlt) c
      · -- this grid has just been passed over
        refine eq_false_of_ne_true fun hcovers => ?_
        have hsome := gridPoint_isSome hnonzero tie hcovers
        rw [hpoint] at hsome
        cases hsome

/-- So many decimal digits hold a number of bits, for `2 ^ 93 < 10 ^ 28`. -/
theorem lt_pow_of_log2 (n : ℕ) : n < 10 ^ ((n.log2 + 1) * 28 / 93 + 1) := by
  have hself : n < 2 ^ (n.log2 + 1) := Nat.lt_log2_self
  generalize n.log2 + 1 = bits at hself
  have hbits : bits * 28 < 93 * (bits * 28 / 93 + 1) := Nat.lt_mul_div_succ _ (by decide)
  generalize bits * 28 / 93 + 1 = digits at hbits
  have hpow : (2 ^ bits) ^ 93 ≤ (10 ^ digits) ^ 93 :=
    calc (2 ^ bits) ^ 93 = (2 ^ 93) ^ bits := by rw [← Nat.pow_mul, ← Nat.pow_mul, Nat.mul_comm]
      _ ≤ (10 ^ 28) ^ bits := Nat.pow_le_pow_left (by decide) bits
      _ = 10 ^ (bits * 28) := by rw [← Nat.pow_mul, Nat.mul_comm]
      _ ≤ 10 ^ (93 * digits) := Nat.pow_le_pow_right (by decide) hbits.le
      _ = (10 ^ digits) ^ 93 := by rw [← Nat.pow_mul, Nat.mul_comm]
  exact Nat.lt_of_lt_of_le hself ((Nat.pow_le_pow_iff_left (by decide)).mp hpow)

/-- The first grid of the search has steps larger than the double. -/
theorem decimalUnits_lt (x : Binary64) : x.decimalUnits < 10 ^ x.coarsestGrid :=
  lt_pow_of_log2 x.decimalUnits

/-- Coarser grids than the first one have no point in the interval. -/
theorem not_covers_of_coarser (hnonzero : x.isZero = false) {k : ℕ} (h : x.coarsestGrid < k)
    (c : ℕ) : x.covers (c * 10 ^ k) = false := by
  refine eq_false_of_ne_true fun hcovers => ?_
  have hc : 0 < c := by
    refine Nat.pos_of_ne_zero fun h0 => ?_
    rw [h0, Nat.zero_mul, not_covers_zero hnonzero] at hcovers
    cases hcovers
  have hpoint : 10 * 10 ^ x.coarsestGrid ≤ c * 10 ^ k :=
    calc 10 * 10 ^ x.coarsestGrid = 10 ^ (x.coarsestGrid + 1) := by rw [Nat.pow_succ, Nat.mul_comm]
      _ ≤ 10 ^ k := Nat.pow_le_pow_right (by decide) h
      _ ≤ c * 10 ^ k := Nat.le_mul_of_pos_left _ hc
  -- the interval ends before twice the double
  have hend : x.upperEnd ≤ 3 * x.decimalUnits := by
    have hnext := unitsOf_succ_le (pos_of_isZero_eq_false hnonzero)
    rw [upperEnd, decimalUnits, ← Nat.mul_assoc]
    refine Nat.mul_le_mul_right unitRatio ?_
    change unitsOf x.magnitude + unitsOf (x.magnitude + 1) ≤ 3 * unitsOf x.magnitude
    omega
  have hinside : 2 * (c * 10 ^ k) ≤ x.upperEnd := by
    have hhigh := (covers_iff.mp hcovers).le.2
    rwa [two_mul_gridValue, ← gridValue_upperEnd, gridValue_le_iff] at hhigh
  have hself := x.decimalUnits_lt
  omega

/-! ### The shortest decimal -/

theorem gridValue_mul_pow {c k : ℕ} {e : ℤ} (h : e = k - 1074) :
    gridValue (c * 10 ^ k) = c * 10 ^ e := by
  rw [gridValue, Nat.cast_mul, Nat.cast_pow, Nat.cast_ofNat, h, zpow_sub₀ (by norm_num),
    zpow_natCast, mul_div_assoc]
  norm_cast

theorem shortest_eq (x : Binary64) (tie : Tie) :
    x.shortest tie = ⟨(x.searchGrid tie x.coarsestGrid).1,
      (x.searchGrid tie x.coarsestGrid).2 - 1074⟩ := rfl

/-- **What the search finds.**  The decimal lies in the interval of the double, and no coarser
grid has a point there. -/
theorem shortest_spec (hnonzero : x.isZero = false) (tie : Tie) :
    x.Encloses (x.shortest tie).value ∧
      ∀ k : ℤ, (x.shortest tie).exponent < k → ∀ c : ℕ, ¬ x.Encloses (c * 10 ^ k) := by
  obtain ⟨hcovers, hcoarser⟩ := searchGrid_spec hnonzero tie x.coarsestGrid
  rw [shortest_eq]
  generalize x.searchGrid tie x.coarsestGrid = found at hcovers hcoarser
  constructor
  · rwa [covers_iff, gridValue_mul_pow rfl, ← Decimal.value_mk] at hcovers
  · intro k hk c hencloses
    change (found.2 : ℤ) - 1074 < k at hk
    obtain ⟨n, hn⟩ : ∃ n : ℕ, k = n - 1074 := ⟨(k + 1074).toNat, by omega⟩
    rw [← gridValue_mul_pow hn, ← covers_iff] at hencloses
    rcases Nat.lt_or_ge x.coarsestGrid n with hlt | hge
    · exact absurd hencloses (Bool.eq_false_iff.mp (not_covers_of_coarser hnonzero hlt c))
    · exact absurd hencloses (Bool.eq_false_iff.mp (hcoarser n (by omega) hge c))

theorem digits_shortest_pos (hnonzero : x.isZero = false) (tie : Tie) :
    0 < (x.shortest tie).digits := by
  refine Nat.pos_of_ne_zero fun h0 => ?_
  have hpos := (shortest_spec hnonzero tie).1.pos hnonzero
  rw [Decimal.value, h0, Nat.cast_zero, zero_mul] at hpos
  exact lt_irrefl 0 hpos

/-- The digits do not end with a zero: that would be a point of the next coarser grid. -/
theorem digits_shortest_mod (hnonzero : x.isZero = false) (tie : Tie) :
    (x.shortest tie).digits % 10 ≠ 0 := by
  obtain ⟨hencloses, hcoarser⟩ := shortest_spec hnonzero tie
  intro h
  refine hcoarser _ (lt_add_one _) ((x.shortest tie).digits / 10) ?_
  have hvalue : (x.shortest tie).value =
      ((x.shortest tie).digits / 10 : ℕ) * 10 ^ ((x.shortest tie).exponent + 1) := by
    have hdigits : (x.shortest tie).digits = (x.shortest tie).digits / 10 * 10 := by omega
    rw [Decimal.value, zpow_add_one₀ (by norm_num)]
    nth_rewrite 1 [hdigits]
    push_cast
    ring
  rwa [← hvalue]

/-- **No decimal in the interval has fewer digits.** -/
theorem digits_lt_of_encloses (hnonzero : x.isZero = false) (tie : Tie) {c n : ℕ} {e : ℤ}
    (h : x.Encloses (c * 10 ^ e)) (hc : c < 10 ^ n) : (x.shortest tie).digits < 10 ^ n := by
  obtain ⟨hencloses, hcoarser⟩ := shortest_spec hnonzero tie
  refine Nat.lt_of_not_le fun hdigits => ?_
  generalize x.shortest tie = d at hencloses hcoarser hdigits
  have hstep : (0 : ℚ) < 10 ^ d.exponent := by positivity
  have he : e ≤ d.exponent := Int.not_lt.mp fun hlt => hcoarser e hlt c h
  -- a power of ten with `n` zeros is between the two, and lies on a coarser grid
  have hpower : x.Encloses ((10 ^ n : ℕ) * 10 ^ d.exponent) := by
    refine h.between hencloses ?_ ?_
    · have hpows : (10 : ℚ) ^ e ≤ 10 ^ d.exponent := zpow_le_zpow_right₀ (by norm_num) he
      exact mul_le_mul (Nat.cast_le.mpr hc.le) hpows (by positivity) (Nat.cast_nonneg _)
    · exact mul_le_mul_of_nonneg_right (Nat.cast_le.mpr hdigits) hstep.le
  cases n with
  | zero =>
    -- the decimal without digits is zero
    obtain rfl : c = 0 := by omega
    rw [Nat.cast_zero, zero_mul] at h
    exact lt_irrefl 0 (h.pos hnonzero)
  | succ n =>
    refine hcoarser (d.exponent + (n + 1)) (by omega) 1 ?_
    have hvalue : ((1 : ℕ) : ℚ) * 10 ^ (d.exponent + (n + 1)) =
        (10 ^ (n + 1) : ℕ) * 10 ^ d.exponent := by
      rw [zpow_add₀ (by norm_num), Nat.cast_one, one_mul, mul_comm]
      norm_cast
    rwa [hvalue]

end Binary64

end Storyboard
