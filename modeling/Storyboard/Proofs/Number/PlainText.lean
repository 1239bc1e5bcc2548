/-
Storyboard/Proofs/Number/PlainText.lean

Numbers as they stand in lines: exact, plain and short.

A text denotes a rational, its digits read in base ten with those behind the point as tenths,
hundredths and so on (`numberValue`).  The text of a double denotes the decimal that the
search has found (`numberValue_text`), and it has no digits but those of this decimal, zeros
before or behind them apart (`significantDigits_text`).  So what is known of the decimal is
known of the text: it rounds to the double, and none with fewer digits does.

Main results: `text_exact_and_plain`, `no_shorter_decimal`.
-/
import Mathlib.Data.List.DropRight
import Storyboard.Proofs.Json.Trees
import Storyboard.Proofs.LineGrammar
import Storyboard.Proofs.Number.Grids

namespace Storyboard

open Json

/-! ### Texts of numbers -/

/-- Digits, with a point and more digits for a fraction.  No zero stands in front of other
digits, and none at the end of a fraction. -/
inductive ExactDigits : List Char → Prop
  | whole {digits : List Char} (h : WholePart digits) : ExactDigits digits
  | fraction {digits more : List Char} {last : Char} (h : WholePart digits) (hmore : Digits more)
      (hlast : last.isDigit = true) (hne : last ≠ '0') :
      ExactDigits (digits ++ '.' :: (more ++ [last]))

/-- A text of the form `-?(0|[1-9][0-9]*)([.][0-9]*[1-9])?`. -/
inductive ExactNumber : String → Prop
  | positive {chars : List Char} (h : ExactDigits chars) : ExactNumber (String.ofList chars)
  | negative {chars : List Char} (h : ExactDigits chars) :
      ExactNumber ("-" ++ String.ofList chars)

/-- The number that digits make, with those behind a point as tenths and so on. -/
def digitsValue (chars : List Char) : ℚ :=
  let whole := chars.takeWhile (· != '.')
  let fraction := (chars.dropWhile (· != '.')).tail
  Nat.ofDigitChars 10 (whole ++ fraction) 0 / 10 ^ fraction.length

/-- The rational that the text of a number denotes. -/
def numberValue (text : String) : ℚ :=
  match text.toList with
  | '-' :: chars => -digitsValue chars
  | chars => digitsValue chars

/-- How many digits of a number's text are not zeros in front or at the end. -/
def significantDigits (text : String) : ℕ :=
  (((text.toList.filter Char.isDigit).dropWhile (· == '0')).rdropWhile (· == '0')).length

/-- A decimal number of at most `n` digits, wherever its point is. -/
def IsDecimal (n : ℕ) (q : ℚ) : Prop := ∃ c e : ℤ, c.natAbs < 10 ^ n ∧ q = c * 10 ^ e

example : numberValue "-12.50" = -25 / 2 ∧ significantDigits "-0.0120" = 2 := by
  decide +kernel

/-! ### Digits -/

theorem ne_point_of_digits {cs : List Char} (h : Digits cs) : ∀ c ∈ cs, (c != '.') = true := by
  intro c hc
  rw [bne_iff_ne]
  rintro rfl
  exact absurd (h '.' hc) (by decide)

theorem digitsValue_whole {cs : List Char} (h : Digits cs) :
    digitsValue cs = Nat.ofDigitChars 10 cs 0 := by
  have htake := List.takeWhile_eq_self_iff.mpr (ne_point_of_digits h)
  have hdrop := List.dropWhile_eq_nil_iff.mpr (ne_point_of_digits h)
  simp only [digitsValue, htake, hdrop, List.tail_nil, List.append_nil, List.length_nil, pow_zero,
    div_one]

theorem digitsValue_point {whole : List Char} (h : Digits whole) (fraction : List Char) :
    digitsValue (whole ++ '.' :: fraction) =
      Nat.ofDigitChars 10 (whole ++ fraction) 0 / 10 ^ fraction.length := by
  rw [digitsValue, List.takeWhile_append_of_pos (ne_point_of_digits h),
    List.dropWhile_append_of_pos (ne_point_of_digits h)]
  simp

theorem not_unsignedNumber_minus {chars : List Char} : ¬ UnsignedNumber ('-' :: chars) := by
  intro h
  generalize hcs : '-' :: chars = cs at h
  obtain ⟨hrun⟩ | @⟨digits, _, hrun⟩ := h
  · exact absurd (hrun.digits '-' (hcs ▸ List.mem_cons_self)) (by decide)
  · obtain ⟨c, ds, rfl⟩ := List.exists_cons_of_ne_nil hrun.nonempty
    obtain rfl : '-' = c := (List.cons.inj hcs).1
    exact absurd (hrun.digits '-' List.mem_cons_self) (by decide)

theorem numberValue_negative (chars : List Char) :
    numberValue ("-" ++ String.ofList chars) = -digitsValue chars := by
  have hchars : ("-" ++ String.ofList chars).toList = '-' :: chars := by simp
  simp only [numberValue, hchars]

theorem numberValue_positive {chars : List Char} (h : UnsignedNumber chars) :
    numberValue (String.ofList chars) = digitsValue chars := by
  rw [numberValue, String.toList_ofList]
  split
  · exact absurd h not_unsignedNumber_minus
  · rfl

theorem filter_isDigit {cs : List Char} (h : Digits cs) : cs.filter Char.isDigit = cs :=
  List.filter_eq_self.mpr h

/-- A number other than zero does not begin with a zero. -/
theorem head_toDigits_pos {n : ℕ} (h : 0 < n) :
    ∃ c cs, Nat.toDigits 10 n = c :: cs ∧ c ≠ '0' := by
  obtain hzero | ⟨c, cs, hcs, -, hne⟩ := head_toDigits n
  · have hvalue : Nat.ofDigitChars 10 (Nat.toDigits 10 n) 0 = n := Nat.ofDigitChars_ten_toDigits
    rw [hzero] at hvalue
    have hzero : Nat.ofDigitChars 10 ['0'] 0 = 0 := rfl
    omega
  · exact ⟨c, cs, hcs, hne⟩

/-- The last digit is the remainder by ten. -/
theorem last_toDigits {n : ℕ} (h : n % 10 ≠ 0) :
    ∃ front last, Nat.toDigits 10 n = front ++ [last] ∧ last ≠ '0' := by
  have hdigit : ∀ m : ℕ, m < 10 → m ≠ 0 → m.digitChar ≠ '0' := by decide
  have hlast := hdigit (n % 10) (Nat.mod_lt n (by decide)) h
  rcases Nat.lt_or_ge n 10 with hlt | hge
  · rw [Nat.mod_eq_of_lt hlt] at hlast
    exact ⟨[], n.digitChar, Nat.toDigits_of_lt_base hlt, hlast⟩
  · exact ⟨_, _, Nat.toDigits_of_base_le (by decide) hge, hlast⟩

/-- Zeros in front are told from the digits. -/
theorem dropWhile_zeros {n : ℕ} (h : 0 < n) (zeros : ℕ) (tail : List Char) :
    (List.replicate zeros '0' ++ (Nat.toDigits 10 n ++ tail)).dropWhile (· == '0') =
      Nat.toDigits 10 n ++ tail := by
  obtain ⟨first, cs, hcs, hfirst⟩ := head_toDigits_pos h
  rw [List.dropWhile_append_of_pos (by simp), hcs, List.cons_append,
    List.dropWhile_cons_of_neg (by simpa using hfirst)]

/-- Zeros at the end are told from the digits. -/
theorem rdropWhile_zeros {n : ℕ} (h : n % 10 ≠ 0) (zeros : ℕ) :
    (Nat.toDigits 10 n ++ List.replicate zeros '0').rdropWhile (· == '0') = Nat.toDigits 10 n := by
  obtain ⟨front, last, hlast, hne⟩ := last_toDigits h
  induction zeros with
  | zero =>
    rw [List.replicate_zero, List.append_nil, hlast,
      List.rdropWhile_concat_neg _ _ _ (by simpa using hne)]
  | succ zeros ih =>
    rw [List.replicate_succ', ← List.append_assoc, List.rdropWhile_concat_pos _ _ _ (by simp), ih]

theorem length_toDigits_le {m n : ℕ} (hm : 0 < m) (h : m < 10 ^ n) :
    (Nat.toDigits 10 m).length ≤ n := by
  refine (Nat.length_toDigits_le_iff (by decide) (Nat.pos_of_ne_zero ?_)).mpr h
  rintro rfl
  omega

theorem lt_pow_length_toDigits (n : ℕ) : n < 10 ^ (Nat.toDigits 10 n).length :=
  (Nat.length_toDigits_le_iff (by decide) Nat.length_toDigits_pos).mp le_rfl

/-! ### Positional notation -/

/-- A number that ends neither in a zero nor is one, as the search finds them. -/
structure Decimal.Trimmed (d : Decimal) : Prop where
  pos : 0 < d.digits
  mod : d.digits % 10 ≠ 0

namespace Decimal

theorem plain_whole (c zeros : ℕ) :
    (⟨c, .ofNat zeros⟩ : Decimal).plain = Nat.toDigits 10 c ++ List.replicate zeros '0' := rfl

/-- The digits of a fraction, with zeros in front that leave room for one before the point. -/
theorem exists_plain_fraction {c : ℕ} (hc : 0 < c) (n : ℕ) :
    ∃ zeros whole fraction, (⟨c, .negSucc n⟩ : Decimal).plain = whole ++ '.' :: fraction ∧
      whole ++ fraction = List.replicate zeros '0' ++ Nat.toDigits 10 c ∧
      fraction.length = n + 1 ∧ WholePart whole := by
  obtain ⟨first, cs, hcs, hfirst⟩ := head_toDigits_pos hc
  have hdigits := digits_toDigits c
  have hplain : (⟨c, .negSucc n⟩ : Decimal).plain =
      let padded := List.replicate (n + 2 - (Nat.toDigits 10 c).length) '0' ++ Nat.toDigits 10 c
      padded.take (padded.length - (n + 1)) ++ '.' :: padded.drop (padded.length - (n + 1)) := rfl
  rw [hplain]
  generalize Nat.toDigits 10 c = digits at hcs hdigits
  have hlength : (List.replicate (n + 2 - digits.length) '0' ++ digits).length =
      n + 2 - digits.length + digits.length := by
    rw [List.length_append, List.length_replicate]
  refine ⟨n + 2 - digits.length, _, _, rfl, List.take_append_drop _ _, ?_, ?_⟩
  · rw [List.length_drop]
    omega
  rcases Nat.lt_or_ge digits.length (n + 2) with hlt | hge
  · -- zero before the point
    left
    obtain ⟨k, hk⟩ : ∃ k, n + 2 - digits.length = k + 1 := ⟨n + 1 - digits.length, by omega⟩
    have hone : (List.replicate (n + 2 - digits.length) '0' ++ digits).length - (n + 1) = 1 := by
      omega
    rw [hone, hk, List.replicate_succ]
    rfl
  · right
    have hnone : n + 2 - digits.length = 0 := by omega
    obtain ⟨k, hk⟩ : ∃ k, digits.length - (n + 1) = k + 1 := ⟨digits.length - (n + 2), by omega⟩
    rw [hnone, List.replicate_zero, List.nil_append, hk]
    rw [hcs] at hdigits ⊢
    exact ⟨first, cs.take k, rfl, hfirst, fun d hd => hdigits d (List.mem_of_mem_take (i := k + 1) hd)⟩

variable {d : Decimal}

theorem exactDigits_plain (h : d.Trimmed) : ExactDigits d.plain := by
  obtain ⟨c, e⟩ := d
  obtain ⟨first, cs, hcs, hfirst⟩ := head_toDigits_pos h.pos
  have hdigits := digits_toDigits c
  cases e with
  | ofNat zeros =>
    rw [plain_whole]
    have hall := digits_append hdigits (digits_zeros zeros)
    rw [show Nat.toDigits 10 c = first :: cs from hcs] at hall ⊢
    exact .whole (.inr ⟨first, _, rfl, hfirst, hall⟩)
  | negSucc n =>
    obtain ⟨zeros, whole, fraction, hplain, hboth, hlength, hwhole⟩ :=
      exists_plain_fraction h.pos n
    obtain ⟨front, last, hlast, hne⟩ := last_toDigits h.mod
    have hboth : whole ++ fraction = List.replicate zeros '0' ++ Nat.toDigits 10 c := hboth
    have hall : Digits (whole ++ fraction) := hboth ▸ digits_append (digits_zeros zeros) hdigits
    -- the last digit stands at the end of the fraction
    obtain ⟨more, final, rfl⟩ : ∃ more final, fraction = more ++ [final] :=
      ⟨_, _, (List.dropLast_append_getLast (l := fraction) (by rintro rfl; cases hlength)).symm⟩
    rw [show Nat.toDigits 10 c = front ++ [last] from hlast, ← List.append_assoc,
      ← List.append_assoc] at hboth
    obtain ⟨-, hfinal⟩ := List.append_inj' hboth rfl
    obtain rfl : final = last := List.singleton_inj.mp hfinal
    rw [hplain]
    exact .fraction hwhole (fun d hd => hall d (by simp [hd])) (hall final (by simp)) hne

theorem digitsValue_plain (hpos : 0 < d.digits) : digitsValue d.plain = d.value := by
  obtain ⟨c, e⟩ := d
  have hdigits := digits_toDigits c
  have hvalue : Nat.ofDigitChars 10 (Nat.toDigits 10 c) 0 = c := Nat.ofDigitChars_ten_toDigits
  cases e with
  | ofNat zeros =>
    rw [plain_whole, digitsValue_whole (digits_append hdigits (digits_zeros zeros)),
      Nat.ofDigitChars_append, hvalue, Nat.ofDigitChars_replicate_zero, value_mk, Nat.cast_mul,
      Nat.cast_pow, Int.ofNat_eq_natCast, zpow_natCast, mul_comm]
    rfl
  | negSucc n =>
    obtain ⟨zeros, whole, fraction, hplain, hboth, hlength, hwhole⟩ :=
      exists_plain_fraction hpos n
    have hall : Digits whole := by
      have hboth : Digits (whole ++ fraction) := hboth ▸ digits_append (digits_zeros zeros) hdigits
      exact fun c hc => hboth c (List.mem_append_left _ hc)
    rw [hplain, digitsValue_point hall, hboth, Nat.ofDigitChars_append,
      Nat.ofDigitChars_replicate_zero, Nat.mul_zero, hvalue, hlength, value_mk, zpow_negSucc,
      div_eq_mul_inv]

/-- Without the zeros around them the digits are left. -/
theorem trimmed_digits (h : d.Trimmed) :
    ((d.plain.filter Char.isDigit).dropWhile (· == '0')).rdropWhile (· == '0') =
      Nat.toDigits 10 d.digits := by
  obtain ⟨c, e⟩ := d
  have hdigits := digits_toDigits c
  cases e with
  | ofNat zeros =>
    rw [plain_whole, filter_isDigit (digits_append hdigits (digits_zeros zeros))]
    have hleft := dropWhile_zeros h.pos 0 (List.replicate zeros '0')
    rw [List.replicate_zero, List.nil_append] at hleft
    exact (congrArg _ hleft).trans (rdropWhile_zeros h.mod zeros)
  | negSucc n =>
    obtain ⟨zeros, whole, fraction, hplain, hboth, -, -⟩ := exists_plain_fraction h.pos n
    have hall : Digits (whole ++ fraction) := hboth ▸ digits_append (digits_zeros zeros) hdigits
    have hfilter : (whole ++ '.' :: fraction).filter Char.isDigit = whole ++ fraction := by
      rw [List.filter_append, List.filter_cons_of_neg (by decide), ← List.filter_append,
        filter_isDigit hall]
    have hleft := dropWhile_zeros h.pos zeros []
    have hright := rdropWhile_zeros h.mod 0
    rw [List.append_nil] at hleft
    rw [List.replicate_zero, List.append_nil] at hright
    rw [hplain, hfilter, hboth]
    exact (congrArg _ hleft).trans hright

end Decimal

/-! ### Texts of doubles -/

namespace Binary64

variable {x : Binary64}

theorem trimmed_shortest (hnonzero : x.isZero = false) (tie : Tie) : (x.shortest tie).Trimmed :=
  ⟨digits_shortest_pos hnonzero tie, digits_shortest_mod hnonzero tie⟩

theorem exactNumber_text (hfinite : x.isFinite = true) (hnonzero : x.isZero = false) :
    ExactNumber x.text := by
  have hexact := Decimal.exactDigits_plain (trimmed_shortest hnonzero .up)
  rw [text_of_finite hfinite hnonzero, signText]
  split
  · exact .negative hexact
  · rw [String.empty_append]
    exact .positive hexact

/-- The text denotes the decimal that was found, with the sign of the double. -/
theorem numberValue_text (hfinite : x.isFinite = true) (hnonzero : x.isZero = false) :
    numberValue x.text = x.sign * (x.shortest .up).value := by
  have hvalue := Decimal.digitsValue_plain (digits_shortest_pos hnonzero .up)
  rw [text_of_finite hfinite hnonzero, signText, sign]
  split
  · rw [numberValue_negative, hvalue, neg_one_mul]
  · rw [String.empty_append, numberValue_positive (Decimal.unsignedNumber_plain _), hvalue, one_mul]

theorem significantDigits_text (hfinite : x.isFinite = true) (hnonzero : x.isZero = false) :
    significantDigits x.text = (Nat.toDigits 10 (x.shortest .up).digits).length := by
  have hsign : x.signText.toList.filter Char.isDigit = [] := by
    rw [signText]
    split <;> decide
  rw [significantDigits, text_of_finite hfinite hnonzero, String.toList_append,
    String.toList_ofList, List.filter_append, hsign, List.nil_append,
    Decimal.trimmed_digits (trimmed_shortest hnonzero .up)]

/-- The text rounds to the double. -/
theorem roundsTo_numberValue_text (hfinite : x.isFinite = true) (hnonzero : x.isZero = false) :
    RoundsTo (numberValue x.text) x := by
  rw [numberValue_text hfinite hnonzero, roundsTo_iff hfinite hnonzero, ← mul_assoc,
    x.sign_mul_sign, one_mul]
  exact (shortest_spec hnonzero .up).1

theorem text_of_isZero (h : x.isZero = true) : x.text = "0" := if_pos h

/-- The text of zero denotes zero, which does not round to another double. -/
theorem text_ne_zero (hfinite : x.isFinite = true) (hnonzero : x.isZero = false) :
    x.text ≠ "0" := by
  intro h
  have hrounds := roundsTo_numberValue_text hfinite hnonzero
  have hdigits : Nat.ofDigitChars 10 ['0'] 0 = 0 := rfl
  have hzero : numberValue "0" = 0 := by simp [numberValue, digitsValue, hdigits]
  rw [h, hzero, roundsTo_iff hfinite hnonzero, mul_zero] at hrounds
  exact lt_irrefl 0 (hrounds.pos hnonzero)

theorem value_ne_zero (hnonzero : x.isZero = false) : x.value ≠ 0 := by
  have hvalue := valueOf_pos (pos_of_isZero_eq_false hnonzero)
  obtain hsign | hsign := x.sign_eq <;> rw [value, hsign] <;> intro h <;> linarith

/-- Two doubles have the same text exactly if they are equal as numbers. -/
theorem text_eq_iff {y : Binary64} (hx : x.isFinite = true) (hy : y.isFinite = true) :
    x.text = y.text ↔ x.value = y.value := by
  rcases hx0 : x.isZero with - | - <;> rcases hy0 : y.isZero with - | -
  · constructor
    · intro h
      have hrounds := roundsTo_numberValue_text hy hy0
      rw [← h] at hrounds
      rw [(roundsTo_numberValue_text hx hx0).unique hrounds hx hy hx0 hy0]
    · intro h
      rw [(roundsTo_value x).unique (h ▸ roundsTo_value y) hx hy hx0 hy0]
  · rw [text_of_isZero hy0, value_of_isZero hy0]
    exact iff_of_false (text_ne_zero hx hx0) (value_ne_zero hx0)
  · rw [text_of_isZero hx0, value_of_isZero hx0]
    exact iff_of_false (text_ne_zero hy hy0).symm (value_ne_zero hy0).symm
  · rw [text_of_isZero hx0, text_of_isZero hy0, value_of_isZero hx0, value_of_isZero hy0]
    exact iff_of_true rfl rfl

theorem isDecimal_sign_mul (x : Binary64) (d : Decimal) :
    IsDecimal (Nat.toDigits 10 d.digits).length (x.sign * d.value) := by
  have hlt := lt_pow_length_toDigits d.digits
  obtain hsign | hsign := x.sign_eq
  · refine ⟨d.digits, d.exponent, hlt, ?_⟩
    rw [hsign, one_mul, Int.cast_natCast, Decimal.value]
  · refine ⟨-d.digits, d.exponent, by rwa [Int.natAbs_neg], ?_⟩
    rw [hsign, neg_one_mul, Int.cast_neg, Int.cast_natCast, neg_mul, Decimal.value]

/-- A decimal that rounds to the double lies in the interval without its sign. -/
theorem encloses_natAbs (hfinite : x.isFinite = true) (hnonzero : x.isZero = false) {c e : ℤ}
    (h : RoundsTo (c * 10 ^ e) x) : x.Encloses (c.natAbs * 10 ^ e) := by
  rw [roundsTo_iff hfinite hnonzero, ← mul_assoc] at h
  have hpower : (0 : ℚ) < 10 ^ e := by positivity
  have hpos : 0 < x.sign * c := pos_of_mul_pos_left (h.pos hnonzero) hpower.le
  have habs : (c.natAbs : ℚ) = x.sign * c := by
    have hself : |x.sign * (c : ℚ)| = x.sign * c := abs_of_pos hpos
    have hsign : |x.sign| = 1 := by
      obtain hsign | hsign := x.sign_eq <;> rw [hsign] <;> norm_num
    rw [abs_mul, hsign, one_mul] at hself
    rw [Nat.cast_natAbs, Int.cast_abs, hself]
  rwa [habs]

end Binary64

/-! ### The theorems -/

/-- **Number texts are exact and plain.**  Either zero is written `0`.  Any other finite double
is written as a plain decimal without superfluous digits, and the rational that this denotes
rounds to the double.  So finite doubles have the same text exactly if they are equal as
numbers. -/
theorem text_exact_and_plain {x : Binary64} (hfinite : x.isFinite = true) :
    (x.isZero = true → x.text = "0") ∧
    (x.isZero = false → ExactNumber x.text ∧ RoundsTo (numberValue x.text) x) ∧
    ∀ y : Binary64, y.isFinite = true → (x.text = y.text ↔ x.value = y.value) :=
  ⟨Binary64.text_of_isZero,
    fun hnonzero => ⟨Binary64.exactNumber_text hfinite hnonzero,
      Binary64.roundsTo_numberValue_text hfinite hnonzero⟩,
    fun _ hy => Binary64.text_eq_iff hfinite hy⟩

/-- The sum of the doubles nearest to a tenth and to two tenths, the double after the one
nearest to three tenths. -/
def sumOfTenths : Binary64 := .ofBits 0x3FD3333333333334

/-- Its text tells it from the double before it. -/
theorem text_sumOfTenths :
    sumOfTenths.text = "0.30000000000000004" ∧
    (Binary64.ofBits 0x3FD3333333333333).text = "0.3" := by
  decide +kernel

theorem text_exact_and_plain_sumOfTenths :
    sumOfTenths.isFinite = true ∧ sumOfTenths.text = "0.30000000000000004" ∧
    ExactNumber "0.30000000000000004" ∧
    RoundsTo (numberValue "0.30000000000000004") sumOfTenths ∧
    sumOfTenths.value ≠ (Binary64.ofBits 0x3FD3333333333333).value := by
  have hfinite : sumOfTenths.isFinite = true := by decide
  obtain ⟨htext, hother⟩ := text_sumOfTenths
  obtain ⟨-, hnonzero, hequal⟩ := text_exact_and_plain hfinite
  have hne := mt (hequal (.ofBits 0x3FD3333333333333) (by decide)).mpr
  rw [htext, hother] at hne
  rw [htext] at hnonzero
  obtain ⟨hexact, hrounds⟩ := hnonzero (by decide)
  exact ⟨hfinite, htext, hexact, hrounds, hne (by decide)⟩

/-- **Number texts are shortest.**  The text of a finite double other than zero denotes a
decimal number of as many digits as it shows, and no decimal number of fewer digits rounds to
the double. -/
theorem no_shorter_decimal {x : Binary64} (hfinite : x.isFinite = true)
    (hnonzero : x.isZero = false) :
    IsDecimal (significantDigits x.text) (numberValue x.text) ∧
    ∀ n < significantDigits x.text, ∀ q, IsDecimal n q → ¬ RoundsTo q x := by
  rw [Binary64.significantDigits_text hfinite hnonzero, Binary64.numberValue_text hfinite hnonzero]
  refine ⟨Binary64.isDecimal_sign_mul x _, ?_⟩
  rintro n hn _ ⟨c, e, hc, rfl⟩ hrounds
  have hdigits := Binary64.digits_lt_of_encloses hnonzero .up
    (Binary64.encloses_natAbs hfinite hnonzero hrounds) hc
  exact absurd (length_toDigits_le (Binary64.digits_shortest_pos hnonzero .up) hdigits)
    (Nat.not_le.mpr hn)

/-- Three tenths is too short. -/
theorem no_shorter_decimal_sumOfTenths :
    sumOfTenths.isFinite = true ∧ sumOfTenths.isZero = false ∧
    significantDigits sumOfTenths.text = 17 ∧ IsDecimal 16 (3 * 10 ^ (-1 : ℤ)) ∧
    ¬ RoundsTo (3 * 10 ^ (-1 : ℤ)) sumOfTenths := by
  have hfinite : sumOfTenths.isFinite = true := by decide
  have hnonzero : sumOfTenths.isZero = false := by decide
  have hdigits : significantDigits sumOfTenths.text = 17 := by
    rw [text_sumOfTenths.1]
    rfl
  have hshort : IsDecimal 16 (3 * 10 ^ (-1 : ℤ)) := ⟨3, -1, by decide, by norm_num⟩
  obtain ⟨-, hnone⟩ := no_shorter_decimal hfinite hnonzero
  rw [hdigits] at hnone
  exact ⟨hfinite, hnonzero, hdigits, hshort, hnone 16 (by decide) _ hshort⟩

end Storyboard
