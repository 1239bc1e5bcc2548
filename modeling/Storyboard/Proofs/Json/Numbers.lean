/-
Storyboard/Proofs/Json/Numbers.lean

Whole numbers read back from their written form.

A number has no mark at its end: its reader stops at the first byte with which
it cannot go on.  In a text that byte is a delimiter, so the results here speak
of bytes with a delimiter, or nothing at all, after them.
-/
import Storyboard.Json.Numbers
import Storyboard.Proofs.Json.Strings

namespace Storyboard

namespace Json

/-! ### Delimiters -/

/-- A byte that may follow a value. -/
def isDelimiter (b : UInt8) : Bool :=
  isBlank b || b == comma || b == closeBracket || b == closeBrace

/-- Bytes that may follow a value: none, or a delimiter and others. -/
def Delimited (tail : List UInt8) : Prop := ∀ b, tail.head? = some b → isDelimiter b = true

theorem delimited_cons {b : UInt8} (hb : isDelimiter b = true) (rest : List UInt8) :
    Delimited (b :: rest) := by
  intro c hc
  obtain rfl : b = c := Option.some.inj hc
  exact hb

/-- No number goes on with a delimiter. -/
theorem isDelimiter_stops {b : UInt8} (h : isDelimiter b = true) :
    isDigit b = false ∧ b ≠ point ∧ isExponentMark b = false := by
  simp only [isDelimiter, isBlank, Bool.or_eq_true, beq_iff_eq, or_assoc] at h
  rcases h with rfl | rfl | rfl | rfl | rfl | rfl | rfl <;> decide

/-! ### Digits -/

/-- The characters of a number's digits are the decimal ones. -/
def Digits (chars : List Char) : Prop := ∀ c ∈ chars, c.isDigit = true

theorem digits_toDigits (n : Nat) : Digits (Nat.toDigits 10 n) := fun _ hc =>
  Nat.isDigit_of_mem_toDigits (by decide) (by decide) hc

theorem toNat_of_isDigit {c : Char} (h : c.isDigit = true) : 48 ≤ c.toNat ∧ c.toNat ≤ 57 := by
  rw [Char.isDigit, Bool.and_eq_true, decide_eq_true_iff, decide_eq_true_iff] at h
  exact ⟨UInt32.le_iff_toNat_le.mp h.1, UInt32.le_iff_toNat_le.mp h.2⟩

/-- A digit has one byte, which counts as a digit and has the same value. -/
theorem encodeChar_of_isDigit {c : Char} (h : c.isDigit = true) :
    ∃ b, String.utf8EncodeChar c = [b] ∧ b.toNat = c.toNat ∧ isDigit b = true := by
  obtain ⟨hlow, hhigh⟩ := toNat_of_isDigit h
  have hval : (UInt8.ofNat c.toNat).toNat = c.toNat := Utf8.toNat_byte (by omega)
  refine ⟨UInt8.ofNat c.toNat, Utf8.encodeChar_of_lt (by omega), hval, ?_⟩
  rw [isDigit, Bool.and_eq_true, decide_eq_true_iff, decide_eq_true_iff,
    UInt8.le_iff_toNat_le, UInt8.le_iff_toNat_le, hval]
  exact ⟨hlow, hhigh⟩

theorem isDigit_of_mem_encoded {chars : List Char} (h : Digits chars) :
    ∀ b ∈ encoded chars, isDigit b = true := by
  intro b hb
  rw [encoded, List.mem_flatMap] at hb
  obtain ⟨c, hc, hb⟩ := hb
  obtain ⟨d, hd, -, hdigit⟩ := encodeChar_of_isDigit (h c hc)
  rw [hd, List.mem_singleton] at hb
  rw [hb]
  exact hdigit

theorem le_ofDigitChars (chars : List Char) (n : Nat) : n ≤ Nat.ofDigitChars 10 chars n := by
  induction chars generalizing n with
  | nil => exact Nat.le_of_eq Nat.ofDigitChars_nil.symm
  | cons c cs ih =>
    rw [Nat.ofDigitChars_cons]
    have h := ih (10 * n + (c.toNat - '0'.toNat))
    omega

/-- Digits whose number stays within the bound are all taken. -/
theorem absorb_encoded {bound : Nat} {chars : List Char} (h : Digits chars) (n : Nat)
    (hbound : Nat.ofDigitChars 10 chars n ≤ bound) :
    absorb bound n (encoded chars) = (Nat.ofDigitChars 10 chars n, []) := by
  induction chars generalizing n with
  | nil => rfl
  | cons c cs ih =>
    obtain ⟨b, hb, hval, -⟩ := encodeChar_of_isDigit (h c List.mem_cons_self)
    have hvalue : digitValue b = c.toNat - '0'.toNat := by
      rw [digitValue, hval]
      rfl
    rw [Nat.ofDigitChars_cons] at hbound
    -- the number only grows, so the bound at the end holds at every digit
    have hstep : 10 * n + digitValue b ≤ bound := by
      rw [hvalue]
      exact Nat.le_trans (le_ofDigitChars cs _) hbound
    rw [encoded_cons, hb, Nat.ofDigitChars_cons]
    show absorb bound n (b :: encoded cs) = _
    rw [absorb, if_pos hstep, hvalue]
    exact ih (fun d hd => h d (List.mem_cons_of_mem c hd)) _ hbound

/-- Only zero is written with a zero in front. -/
theorem head_toDigits (n : Nat) :
    Nat.toDigits 10 n = ['0'] ∨
      ∃ c cs, Nat.toDigits 10 n = c :: cs ∧ c.isDigit = true ∧ c ≠ '0' := by
  induction n using Nat.strongRecOn with
  | ind n ih =>
    by_cases hlt : n < 10
    · rw [Nat.toDigits_of_lt_base hlt]
      have hall : ∀ m : Nat, m < 10 →
          m.digitChar = '0' ∨ (m.digitChar.isDigit = true ∧ m.digitChar ≠ '0') := by
        decide
      obtain hzero | ⟨hdigit, hne⟩ := hall n hlt
      · rw [hzero]
        exact .inl rfl
      · exact .inr ⟨n.digitChar, [], rfl, hdigit, hne⟩
    · -- the first digits are those of a tenth, which is not zero
      right
      have hge : 10 ≤ n := Nat.le_of_not_lt hlt
      rw [Nat.toDigits_of_base_le (by decide) hge]
      obtain hzero | ⟨c, cs, hcs, hdigit, hne⟩ := ih (n / 10) (by omega)
      · have h : Nat.ofDigitChars 10 (Nat.toDigits 10 (n / 10)) 0 = n / 10 :=
          Nat.ofDigitChars_ten_toDigits
        rw [hzero] at h
        have hzero' : Nat.ofDigitChars 10 ['0'] 0 = 0 := rfl
        omega
      · rw [hcs]
        exact ⟨c, cs ++ [(n % 10).digitChar], rfl, hdigit, hne⟩

/-! ### Whole numbers -/

namespace Reader

variable {tail : List UInt8}

/-- A run of digits does not go on at a delimiter. -/
theorem takeWhile_isDigit_append (bytes : List UInt8) (htail : Delimited tail) :
    (bytes ++ tail).takeWhile isDigit = bytes.takeWhile isDigit ∧
      (bytes ++ tail).dropWhile isDigit = bytes.dropWhile isDigit ++ tail := by
  induction bytes with
  | nil =>
    cases tail with
    | nil => exact ⟨rfl, rfl⟩
    | cons b rest =>
      have hb : ¬ isDigit b = true := by
        rw [(isDelimiter_stops (htail b rfl)).1]
        decide
      exact ⟨List.takeWhile_cons_of_neg hb, List.dropWhile_cons_of_neg hb⟩
  | cons b bytes ih =>
    by_cases hb : isDigit b = true
    · rw [List.cons_append, List.takeWhile_cons_of_pos hb, List.takeWhile_cons_of_pos hb,
        List.dropWhile_cons_of_pos hb, List.dropWhile_cons_of_pos hb, ih.1, ih.2]
      exact ⟨rfl, rfl⟩
    · rw [List.cons_append, List.takeWhile_cons_of_neg hb, List.takeWhile_cons_of_neg hb,
        List.dropWhile_cons_of_neg hb, List.dropWhile_cons_of_neg hb]
      exact ⟨rfl, rfl⟩

theorem yields_digits (bytes : List UInt8) :
    digits.Yields bytes (bytes.takeWhile isDigit) (bytes.dropWhile isDigit) := by
  apply Yields.bind (yields_run isDigit bytes)
  apply Yields.bind (yields_peek _)
  exact Yields.pure _ _

theorem yields_wholeDigits (n : Nat) (htail : Delimited tail) :
    wholeDigits.Yields (encoded (Nat.toDigits 10 n) ++ tail) (encoded (Nat.toDigits 10 n))
      tail := by
  obtain hzero | ⟨c, cs, hcs, hdigit, hne⟩ := head_toDigits n
  · -- zero: no digit may follow, and a delimiter is none
    rw [hzero]
    apply Yields.bind (yields_next zeroDigit tail)
    apply Yields.bind (yields_peek tail)
    cases tail with
    | nil => exact Yields.pure [zeroDigit] []
    | cons b rest =>
      show (if isDigit b = true then _ else _ : Reader (List UInt8)).Yields _ _ _
      rw [(isDelimiter_stops (htail b rfl)).1]
      exact Yields.pure [zeroDigit] (b :: rest)
  · obtain ⟨b, hb, hval, hbdigit⟩ := encodeChar_of_isDigit hdigit
    have hmore : ∀ d ∈ encoded cs, isDigit d = true := by
      apply isDigit_of_mem_encoded
      intro d hd
      exact digits_toDigits n d (hcs ▸ List.mem_cons_of_mem c hd)
    have hnonzero : b ≠ zeroDigit := by
      intro h
      rw [h] at hval
      exact hne (Char.toNat_inj.mp hval.symm)
    rw [hcs, encoded_cons, hb]
    apply Yields.bind (yields_next b (encoded cs ++ tail))
    show (if (!isDigit b) = true then _ else if b = zeroDigit then _ else _ :
      Reader (List UInt8)).Yields _ _ _
    rw [hbdigit, if_neg (by decide), if_neg hnonzero]
    have hread := yields_digits (encoded cs ++ tail)
    have hstop : tail.takeWhile isDigit = [] ∧ tail.dropWhile isDigit = tail :=
      takeWhile_isDigit_append [] htail
    rw [List.takeWhile_append_of_pos hmore, List.dropWhile_append_of_pos hmore, hstop.1, hstop.2,
      List.append_nil] at hread
    apply Yields.bind hread
    exact Yields.pure _ tail

/-- A number of digits only, which fits 64 bits. -/
theorem yields_numberRest (negative : Bool) {n : Nat} (hn : n ≤ maxSignificand)
    (htail : Delimited tail) :
    (numberRest negative).Yields (encoded (Nat.toDigits 10 n) ++ tail)
      (Number.ofWhole negative n) tail := by
  have habsorb : absorb maxSignificand 0 (encoded (Nat.toDigits 10 n)) = (n, []) := by
    have hvalue : Nat.ofDigitChars 10 (Nat.toDigits 10 n) 0 = n := Nat.ofDigitChars_ten_toDigits
    rw [absorb_encoded (digits_toDigits n) 0 (by rw [hvalue]; exact hn), hvalue]
  apply Yields.bind (yields_wholeDigits n htail)
  rw [habsorb]
  apply Yields.bind (yields_peek tail)
  cases tail with
  | nil => exact Yields.pure _ []
  | cons b rest =>
    obtain ⟨-, hpoint, hmark⟩ := isDelimiter_stops (htail b rfl)
    show (if b = point then _ else if isExponentMark b = true then _ else _ :
      Reader Number).Yields _ _ _
    rw [if_neg hpoint, hmark]
    exact Yields.pure _ (b :: rest)

/-- The number that is read from a whole number's text. -/
def wholeNumber (i : Int) : Number := if 0 ≤ i then .natural i.toNat else .negative i

/-- A byte that a number may begin with. -/
def beginsNumber (b : UInt8) : Bool := b = minus || isDigit b

/-- The written form `bytes` of a number, which is read as `n` wherever it stands. -/
structure ReadsNumber (bytes : List UInt8) (n : Number) : Prop where
  begins : ∃ b rest, bytes = b :: rest ∧ beginsNumber b = true
  yields : ∀ b tail, bytes.head? = some b → Delimited tail →
    (number b).Yields (bytes ++ tail) n tail

theorem encode_toString_of_nonneg {i : Int} (h : 0 ≤ i) :
    Utf8.encode (toString i) = encoded (Nat.toDigits 10 i.toNat) := by
  rw [Int.toString_eq_repr, Int.repr_eq_if, if_pos h, Nat.repr_eq_ofList_toDigits,
    Utf8.encode_ofList]
  rfl

theorem encode_toString_of_neg {i : Int} (h : ¬ 0 ≤ i) :
    Utf8.encode (toString i) = minus :: encoded (Nat.toDigits 10 (-i).toNat) := by
  rw [Int.toString_eq_repr, Int.repr_eq_if, if_neg h, Nat.repr_eq_ofList_toDigits,
    Utf8.encode_append, Utf8.encode_ofList (Nat.toDigits 10 (-i).toNat)]
  rfl

theorem head_encoded_toDigits (n : Nat) :
    ∃ b rest, encoded (Nat.toDigits 10 n) = b :: rest ∧ isDigit b = true := by
  cases hchars : Nat.toDigits 10 n with
  | nil => exact absurd hchars Nat.toDigits_ne_nil
  | cons c cs =>
    have hc : c.isDigit = true := digits_toDigits n c (hchars ▸ List.mem_cons_self)
    obtain ⟨b, hb, -, hdigit⟩ := encodeChar_of_isDigit hc
    rw [encoded_cons, hb]
    exact ⟨b, encoded cs, rfl, hdigit⟩

/-- Every whole number of 64 bits, with or without sign, is read back. -/
theorem readsNumber_toString {i : Int} (hlow : -0x8000000000000000 ≤ i)
    (hhigh : i ≤ 0xffffffffffffffff) :
    ReadsNumber (Utf8.encode (toString i)) (wholeNumber i) := by
  by_cases h : 0 ≤ i
  · obtain ⟨b, rest, hb, hdigit⟩ := head_encoded_toDigits i.toNat
    rw [encode_toString_of_nonneg h, wholeNumber, if_pos h]
    refine ⟨⟨b, rest, hb, by rw [beginsNumber, hdigit, Bool.or_true]⟩, ?_⟩
    intro c tail hc htail
    -- a digit is no sign
    have hne : c ≠ minus := by
      rintro rfl
      rw [hb] at hc
      obtain rfl : b = minus := Option.some.inj hc
      exact absurd hdigit (by decide)
    rw [number, if_neg hne]
    exact yields_numberRest false (by rw [maxSignificand]; omega) htail
  · rw [encode_toString_of_neg h, wholeNumber, if_neg h]
    refine ⟨⟨minus, _, rfl, by decide⟩, ?_⟩
    intro c tail hc htail
    obtain rfl : minus = c := Option.some.inj hc
    have hvalue : Number.ofWhole true (-i).toNat = .negative i := by
      have hneg : -((-i).toNat : Int) = i := by omega
      rw [Number.ofWhole, if_neg (by decide), if_pos (by omega), hneg]
    rw [number, if_pos rfl, ← hvalue]
    apply Yields.bind (yields_skip_one minus _)
    exact yields_numberRest true (by rw [maxSignificand]; omega) htail

end Reader

end Json

end Storyboard
