/-
Storyboard/Proofs/Json/Numerals.lean

The numbers that readers accept.

A reader of a number accepts a `Numeral`, as does the one that only passes over a
number.  Where the answer is a whole number, that was spelled in the one way in which
whole numbers are written (`on_number`): without a sign or a zero in front that it does
not need, and with neither point nor exponent.
-/
import Mathlib.Data.List.Induction
import Storyboard.Proofs.Json.Spellings

namespace Storyboard

namespace Json

/-! ### Digits and their number -/

/-- Digits without a zero in front are those of their number. -/
theorem toDigits_ofDigitChars {cs : List Char} (h : WholePart cs) :
    Nat.toDigits 10 (Nat.ofDigitChars 10 cs 0) = cs := by
  obtain rfl | ⟨c, ds, rfl, hne, hdigits⟩ := h
  · rfl
  have hdigit {d : Char} (hd : d.isDigit = true) :
      d.toNat - '0'.toNat < 10 ∧ Nat.toDigits 10 (d.toNat - '0'.toNat) = [d] := by
    obtain ⟨hlow, hhigh⟩ := toNat_of_isDigit hd
    have hall : ∀ n < 10, Nat.toDigits 10 n = [Char.ofNat (n + 48)] := by decide
    have hlt : d.toNat - '0'.toNat < 10 := by
      show d.toNat - 48 < 10
      omega
    have hback : d.toNat - '0'.toNat + 48 = d.toNat := Nat.sub_add_cancel hlow
    refine ⟨hlt, ?_⟩
    rw [hall _ hlt, hback, Char.ofNat_toNat]
  -- by induction on the digits after the first, from the last one backwards
  suffices 0 < Nat.ofDigitChars 10 (c :: ds) 0 ∧
      Nat.toDigits 10 (Nat.ofDigitChars 10 (c :: ds) 0) = c :: ds from this.2
  induction ds using List.reverseRecOn with
  | nil =>
    have hc : c.isDigit = true := hdigits c List.mem_cons_self
    rw [Nat.ofDigitChars_cons, Nat.ofDigitChars_nil, Nat.mul_zero, Nat.zero_add]
    refine ⟨?_, (hdigit hc).2⟩
    obtain ⟨hlow, -⟩ := toNat_of_isDigit hc
    have hzero : c.toNat ≠ 48 := fun heq => hne (Char.toNat_inj.mp heq)
    show 0 < c.toNat - 48
    omega
  | append_singleton ds d ih =>
    have hd : d.isDigit = true := hdigits d (by simp)
    obtain ⟨hpos, hds⟩ := ih fun e he => hdigits e (by
      rw [List.mem_cons] at he ⊢
      exact he.imp_right (List.mem_append_left _))
    obtain ⟨hlt, hlast⟩ := hdigit hd
    rw [← List.cons_append, Nat.ofDigitChars_append, Nat.ofDigitChars_cons, Nat.ofDigitChars_nil]
    refine ⟨by omega, ?_⟩
    rw [← Nat.toDigits_append_toDigits (by decide) hpos hlt, hds, hlast]

/-- Digits that were all taken make their number. -/
theorem ofDigitChars_of_absorb {bound n m : Nat} {cs : List Char} (hcs : Digits cs)
    (h : absorb bound n (encoded cs) = (m, [])) : m = Nat.ofDigitChars 10 cs n := by
  induction cs generalizing n with
  | nil =>
    cases h
    rw [Nat.ofDigitChars_nil]
  | cons c cs ih =>
    obtain ⟨b, hb, hval, -⟩ := encodeChar_of_isDigit (hcs c List.mem_cons_self)
    rw [encoded_cons, hb] at h
    change absorb bound n (b :: encoded cs) = (m, []) at h
    rw [absorb] at h
    split at h
    · rw [ih (fun d hd => hcs d (List.mem_cons_of_mem c hd)) h, Nat.ofDigitChars_cons, digitValue,
        hval]
      rfl
    · cases h

/-- The whole number that was read, if it was one. -/
def Number.whole? : Number → Option Int
  | natural n => some n
  | negative i => some i
  | float _ => none

theorem toString_natural (n : Nat) : (toString (n : Int)).toList = Nat.toDigits 10 n := by
  rw [Int.toString_eq_repr, Int.repr_eq_if, if_pos (Int.natCast_nonneg n),
    Nat.repr_eq_ofList_toDigits, String.toList_ofList]
  rfl

theorem toString_negative {n : Nat} (h : 0 < n) :
    (toString (-(n : Int))).toList = '-' :: Nat.toDigits 10 n := by
  rw [Int.toString_eq_repr, Int.repr_eq_if, if_neg (by omega), Nat.repr_eq_ofList_toDigits,
    String.toList_append, Int.neg_neg, Int.toNat_natCast,
    String.toList_ofList, String.toList_ofList]
  rfl

namespace Reader

variable {cs : List Char}

/-! ### Parts of a number -/

theorem on_digits (cs : List Char) :
    digits.On cs fun bytes rest => ∃ ds, cs = ds ++ rest ∧ Digits ds ∧ bytes = encoded ds := by
  refine On.bind (on_run uniform_isDigit cs) ?_
  rintro bytes mid ⟨ds, rfl, rfl, hds, -⟩
  refine On.bind (on_peek mid) ?_
  rintro _ _ ⟨rfl, -⟩
  exact On.pure ⟨ds, rfl, fun c hc => isDigit_of_testsChar (hds c hc), rfl⟩

theorem encoded_isEmpty_eq {ds : List Char} (h : (encoded ds).isEmpty = false) : ds ≠ [] := by
  rintro rfl
  cases h

/-- The digits that come next, and passing over them. -/
theorem on_digitsAhead_bind {α : Type} {post : α → List Char → Prop}
    {f : List UInt8 → Reader α}
    (hf : ∀ ds rest, cs = ds ++ rest → Digits ds → (f (encoded ds)).On cs post) :
    (digitsAhead >>= f).On cs post := by
  obtain ⟨ds, rest, hcs, htake, -, hds, -⟩ := exists_run uniform_isDigit cs
  have hahead : digitsAhead.On cs fun bytes mid => cs = mid ∧ encoded ds = bytes := by
    intro i hi
    refine ⟨cs, hi, rfl, ?_⟩
    rw [hi, htake]
  refine On.bind hahead ?_
  rintro _ _ ⟨rfl, rfl⟩
  exact hf ds rest hcs fun c hc => isDigit_of_testsChar (hds c hc)

theorem on_skip_encoded (front rest : List Char) :
    (skip (encoded front).length).On (front ++ rest) fun _ mid => rest = mid := by
  intro i hi
  refine ⟨rest, ?_, rfl⟩
  show i.rest.drop (encoded front).length = encoded rest
  rw [hi, encoded_append, List.drop_left]

theorem on_wholeDigits (cs : List Char) :
    wholeDigits.On cs fun bytes rest => ∃ ds, cs = ds ++ rest ∧ WholePart ds ∧
      bytes = encoded ds := by
  refine on_next_bind (fun _ => On.failHere (by decide)) (fun b rest hb hcs => ?_) fun b hb => ?_
  · dsimp only
    split
    · exact On.failHere (by decide)
    rename_i hdigit
    have hdigit : isDigit b = true := by simpa using hdigit
    split
    · rename_i hzero
      refine On.bind (on_peek rest) ?_
      rintro c? _ ⟨rfl, -⟩
      have hpost : ∃ ds, cs = ds ++ rest ∧ WholePart ds ∧ [b] = encoded ds :=
        ⟨['0'], by rw [hcs, hzero]; rfl, .inl rfl, by rw [hzero]; rfl⟩
      split
      · split
        · exact On.failNext (by decide)
        · exact On.pure hpost
      · exact On.pure hpost
    · rename_i hzero
      refine On.bind (on_digits rest) ?_
      rintro bytes more ⟨ds, rfl, hds, rfl⟩
      refine On.pure ⟨Char.ofNat b.toNat :: ds, hcs, .inr ⟨_, ds, rfl, ?_, ?_⟩, ?_⟩
      · intro heq
        have hval := toNat_ofNat_of_lt hb
        rw [heq] at hval
        exact hzero (UInt8.toNat_inj.mp hval.symm)
      · intro d hd
        obtain rfl | hd := List.mem_cons.mp hd
        · exact isDigit_ofNat hdigit
        · exact hds d hd
      · rw [encoded_ofNat_cons hb]
  · dsimp only
    rw [isDigit_of_beyond hb]
    exact rejects_failHere (by decide)

theorem on_assemble (negative : Bool) (significand : Nat) (exponent : Int) (cs : List Char) :
    (assemble negative significand exponent).On cs fun n rest => cs = rest ∧ n.whole? = none := by
  rw [assemble]
  cases fromParts significand exponent with
  | none => exact On.failHere (by decide)
  | some x => exact On.pure ⟨rfl, rfl⟩

theorem on_exponentSign (cs : List Char) :
    exponentSign.On cs fun _ rest => ∃ sign, cs = sign ++ rest ∧
      (sign = [] ∨ sign = ['+'] ∨ sign = ['-']) := by
  refine On.bind (on_peek cs) ?_
  rintro b? _ ⟨rfl, hb⟩
  split
  · split
    · rename_i hplus
      refine on_skip_bind hb.symm (by rw [hplus]; decide) fun rest hcs =>
        On.pure ⟨['+'], ?_, by simp⟩
      rw [hcs, hplus]
      rfl
    split
    · rename_i hminus
      refine on_skip_bind hb.symm (by rw [hminus]; decide) fun rest hcs =>
        On.pure ⟨['-'], ?_, by simp⟩
      rw [hcs, hminus]
      rfl
    · exact On.pure ⟨[], rfl, .inl rfl⟩
  · exact On.pure ⟨[], rfl, .inl rfl⟩

theorem on_exponentDigit (cs : List Char) :
    exponentDigit.On cs fun _ rest => ∃ c, cs = c :: rest ∧ c.isDigit = true := by
  refine on_next_bind (fun _ => On.failHere (by decide)) (fun b rest _ hcs => ?_) fun b hb => ?_
  · dsimp only
    split
    · rename_i hdigit
      exact On.pure ⟨_, hcs, isDigit_ofNat hdigit⟩
    · exact On.failHere (by decide)
  · dsimp only
    rw [isDigit_of_beyond hb]
    exact rejects_failHere (by decide)

/-- What follows the letter of an exponent. -/
def ExponentRest (cs : List Char) : Prop :=
  ∃ sign ds, cs = sign ++ ds ∧ (sign = [] ∨ sign = ['+'] ∨ sign = ['-']) ∧ ds ≠ [] ∧ Digits ds

theorem on_withExponent (negative : Bool) (significand : Nat) (shift : Int) (cs : List Char) :
    (withExponent negative significand shift).On cs fun n rest =>
      ∃ part, cs = part ++ rest ∧ ExponentRest part ∧ n.whole? = none := by
  refine On.bind (on_exponentSign cs) ?_
  rintro down mid ⟨sign, rfl, hsign⟩
  refine On.bind (on_exponentDigit mid) ?_
  rintro first mid ⟨c, rfl, hc⟩
  refine on_digitsAhead_bind ?_
  rintro ds rest rfl hds
  have hdigits : Digits (c :: ds) := by
    intro d hd
    obtain rfl | hd := List.mem_cons.mp hd
    · exact hc
    · exact hds d hd
  have hpart : sign ++ c :: (ds ++ rest) = sign ++ c :: ds ++ rest :=
    (List.append_assoc sign (c :: ds) rest).symm
  have hrest : ExponentRest (sign ++ c :: ds) := ⟨sign, c :: ds, rfl, hsign, by simp, hdigits⟩
  split
  · refine On.bind (on_skip_encoded ds rest) ?_
    rintro _ _ rfl
    refine On.bind (on_peek _) ?_
    rintro _ _ ⟨rfl, -⟩
    refine (on_assemble _ _ _ _).mono ?_
    rintro n _ ⟨rfl, hn⟩
    exact ⟨_, hpart, hrest, hn⟩
  · split
    · -- too large: an error, wherever reading stops
      exact On.of_rejects fun i =>
        ⟨_, _, rfl, (by decide : Fault.numberOutOfRange ≠ .invalidUtf8)⟩
    · refine On.bind (on_skip_encoded ds rest) ?_
      rintro _ _ rfl
      refine On.bind (on_peek _) ?_
      rintro _ _ ⟨rfl, -⟩
      exact On.pure ⟨_, hpart, hrest, rfl⟩

/-- Either letter begins an exponent. -/
theorem exponentPart_of_rest {b : UInt8} (hb : isExponentMark b = true) {part : List Char}
    (h : ExponentRest part) : ExponentPart (Char.ofNat b.toNat :: part) := by
  obtain ⟨sign, ds, rfl, hsign, hne, hds⟩ := h
  refine .inr ⟨_, sign, ds, rfl, ?_, hsign, hne, hds⟩
  rw [isExponentMark, Bool.or_eq_true, beq_iff_eq, beq_iff_eq] at hb
  obtain rfl | rfl := hb
  · exact .inl rfl
  · exact .inr rfl

theorem lt_of_isExponentMark {b : UInt8} (h : isExponentMark b = true) : b < 0x80 := by
  rw [isExponentMark, Bool.or_eq_true, beq_iff_eq, beq_iff_eq] at h
  obtain rfl | rfl := h <;> decide

theorem on_afterSignificand (negative : Bool) (significand : Nat) (shift : Int) (cs : List Char) :
    (afterSignificand negative significand shift).On cs fun n rest =>
      ∃ part, cs = part ++ rest ∧ ExponentPart part ∧ n.whole? = none := by
  have hnone : (assemble negative significand shift).On cs fun n rest =>
      ∃ part, cs = part ++ rest ∧ ExponentPart part ∧ n.whole? = none := by
    refine (on_assemble _ _ _ _).mono ?_
    rintro n _ ⟨rfl, hn⟩
    exact ⟨[], rfl, .inl rfl, hn⟩
  refine On.bind (on_peek cs) ?_
  rintro b? _ ⟨rfl, hb⟩
  split
  · split
    · rename_i hmark
      refine on_skip_bind hb.symm (lt_of_isExponentMark hmark) fun rest hcs => ?_
      refine (on_withExponent _ _ _ rest).mono ?_
      rintro n more ⟨part, rfl, hpart, hn⟩
      exact ⟨_ :: part, hcs, exponentPart_of_rest hmark hpart, hn⟩
    · exact hnone
  · exact hnone

/-- After the point. -/
theorem on_withFraction (negative : Bool) (significand : Nat) (shift : Int) (cs : List Char) :
    (withFraction negative significand shift).On cs fun n rest =>
      ∃ fraction exponent, '.' :: cs = fraction ++ (exponent ++ rest) ∧ FractionPart fraction ∧
        ExponentPart exponent ∧ n.whole? = none := by
  refine On.bind (on_digits cs) ?_
  rintro bytes mid ⟨ds, rfl, hds, rfl⟩
  split
  · refine On.bind (on_peek mid) ?_
    rintro b? _ ⟨rfl, -⟩
    split
    · exact On.failNext (by decide)
    · exact On.failNext (by decide)
  · rename_i hne
    have hne : ds ≠ [] := encoded_isEmpty_eq (by simpa using hne)
    refine (on_afterSignificand _ _ _ mid).mono ?_
    rintro n rest ⟨part, rfl, hpart, hn⟩
    exact ⟨'.' :: ds, part, rfl, .inr ⟨ds, rfl, hne, hds⟩, hpart, hn⟩

/-! ### Numbers -/

theorem on_numberRest (negative : Bool) (cs : List Char) :
    (numberRest negative).On cs fun n rest => ∃ ds, cs = ds ++ rest ∧ Unsigned ds ∧
      ∀ i, n.whole? = some i → (toString i).toList = if negative then '-' :: ds else ds := by
  refine On.bind (on_wholeDigits cs) ?_
  rintro bytes mid ⟨whole, rfl, hwhole, rfl⟩
  have hunsigned {fraction exponent : List Char} (hfraction : FractionPart fraction)
      (hexponent : ExponentPart exponent) : Unsigned (whole ++ (fraction ++ exponent)) :=
    ⟨whole, fraction, exponent, rfl, hwhole, hfraction, hexponent⟩
  have hdigits : Digits whole := by
    obtain rfl | ⟨c, ds, rfl, -, hds⟩ := hwhole
    · intro c hc
      rw [List.mem_singleton.mp hc]
      rfl
    · exact hds
  split
  rename_i significand beyond habsorb
  refine On.bind (on_peek mid) ?_
  rintro b? _ ⟨rfl, hb⟩
  -- a number of digits only
  have hending : (numberRest.ending negative significand beyond).On mid fun n rest =>
      ∃ ds, whole ++ mid = ds ++ rest ∧ Unsigned ds ∧
        ∀ i, n.whole? = some i → (toString i).toList = if negative then '-' :: ds else ds := by
    have hds : Unsigned whole := by
      have h := hunsigned (.inl rfl) (.inl rfl)
      rw [List.append_nil, List.append_nil] at h
      exact h
    rw [numberRest.ending]
    split
    · rename_i hempty
      rw [List.isEmpty_iff] at hempty
      subst hempty
      have hvalue := ofDigitChars_of_absorb hdigits habsorb
      have hchars : Nat.toDigits 10 significand = whole := by
        rw [hvalue]
        exact toDigits_ofDigitChars hwhole
      refine On.pure ⟨whole, rfl, hds, fun i hi => ?_⟩
      rw [Number.ofWhole] at hi
      split at hi
      · rename_i hsign
        obtain rfl := Option.some.inj hi
        have hsign : negative = false := by simpa using hsign
        rw [toString_natural, hchars, hsign]
        rfl
      split at hi
      · rename_i hsign hrange
        obtain rfl := Option.some.inj hi
        have hsign : negative = true := by simpa using hsign
        rw [toString_negative hrange.1, hchars, hsign]
        rfl
      · cases hi
    · refine (on_assemble _ _ _ _).mono ?_
      rintro n _ ⟨rfl, hn⟩
      refine ⟨whole, rfl, hds, fun i hi => ?_⟩
      rw [hn] at hi
      cases hi
  split
  · rename_i b
    split
    · rename_i hpoint
      refine on_skip_bind hb.symm (by rw [hpoint]; decide) fun rest hmid => ?_
      refine (on_withFraction _ _ _ rest).mono ?_
      rintro n more ⟨fraction, exponent, hrest, hfraction, hexponent, hn⟩
      have hdot : Char.ofNat b.toNat = '.' := by rw [hpoint]; rfl
      refine ⟨_, ?_, hunsigned hfraction hexponent, fun i hi => ?_⟩
      · rw [hmid, hdot, hrest]
        simp only [List.append_assoc]
      · rw [hn] at hi
        cases hi
    split
    · rename_i hmark
      refine on_skip_bind hb.symm (lt_of_isExponentMark hmark) fun rest hmid => ?_
      refine (on_withExponent _ _ _ rest).mono ?_
      rintro n more ⟨part, rfl, hpart, hn⟩
      refine ⟨_, ?_, hunsigned (.inl rfl) (exponentPart_of_rest hmark hpart), fun i hi => ?_⟩
      · rw [hmid]
        simp only [List.nil_append, List.cons_append, List.append_assoc]
      · rw [hn] at hi
        cases hi
    · exact hending
  · exact hending

/-- A number is a numeral, and a whole one is written as whole numbers are. -/
theorem on_number {b : UInt8} (hb : (encoded cs).head? = some b) :
    (number b).On cs fun n rest => ∃ num : Numeral, cs = num.chars ++ rest ∧
      ∀ i, n.whole? = some i → num.chars = (toString i).toList := by
  rw [number]
  split
  · rename_i hminus
    refine on_skip_bind hb (by rw [hminus]; decide) fun rest hcs => ?_
    refine (on_numberRest true rest).mono ?_
    rintro n more ⟨ds, rfl, hds, hwhole⟩
    refine ⟨⟨'-' :: ds, .inr ⟨ds, rfl, hds⟩⟩, ?_, fun i hi => (hwhole i hi).symm⟩
    rw [hcs, hminus]
    rfl
  · refine (on_numberRest false cs).mono ?_
    rintro n rest ⟨ds, rfl, hds, hwhole⟩
    exact ⟨⟨ds, .inl hds⟩, rfl, fun i hi => (hwhole i hi).symm⟩

/-! ### Numbers that are passed over -/

theorem on_skipExponent (cs : List Char) :
    skipExponent.On cs fun _ rest => ∃ part, cs = part ++ rest ∧ ExponentRest part := by
  refine On.bind (on_exponentSign cs) ?_
  rintro _ mid ⟨sign, rfl, hsign⟩
  refine on_next_bind (fun _ => On.failHere (by decide)) (fun b rest _ hmid => ?_) fun b hb => ?_
  · dsimp only
    split
    · rename_i hdigit
      refine On.bind (on_digits rest) ?_
      rintro _ more ⟨ds, rfl, hds, -⟩
      refine On.pure ⟨sign ++ Char.ofNat b.toNat :: ds, ?_, sign, _, rfl, hsign, by simp, ?_⟩
      · rw [hmid]
        simp only [List.cons_append, List.append_assoc]
      · intro d hd
        obtain rfl | hd := List.mem_cons.mp hd
        · exact isDigit_ofNat hdigit
        · exact hds d hd
    · exact On.failHere (by decide)
  · dsimp only
    rw [isDigit_of_beyond hb]
    exact rejects_failHere (by decide)

theorem on_skipOptionalExponent (cs : List Char) :
    skipOptionalExponent.On cs fun _ rest => ∃ part, cs = part ++ rest ∧ ExponentPart part := by
  refine On.bind (on_peek cs) ?_
  rintro b? _ ⟨rfl, hb⟩
  split
  · split
    · rename_i hmark
      refine on_skip_bind hb.symm (lt_of_isExponentMark hmark) fun rest hcs => ?_
      refine (on_skipExponent rest).mono ?_
      rintro _ more ⟨part, rfl, hpart⟩
      exact ⟨_ :: part, hcs, exponentPart_of_rest hmark hpart⟩
    · exact On.pure ⟨[], rfl, .inl rfl⟩
  · exact On.pure ⟨[], rfl, .inl rfl⟩

theorem on_skipAfterWhole (cs : List Char) :
    skipAfterWhole.On cs fun _ rest => ∃ fraction exponent, cs = fraction ++ (exponent ++ rest) ∧
      FractionPart fraction ∧ ExponentPart exponent := by
  refine On.bind (on_peek cs) ?_
  rintro b? _ ⟨rfl, hb⟩
  split
  · rename_i b
    split
    · rename_i hpoint
      refine on_skip_bind hb.symm (by rw [hpoint]; decide) fun rest hcs => ?_
      refine On.bind (on_digits rest) ?_
      rintro _ mid ⟨ds, rfl, hds, rfl⟩
      split
      · exact On.failNext (by decide)
      · rename_i hne
        have hne : ds ≠ [] := encoded_isEmpty_eq (by simpa using hne)
        refine (on_skipOptionalExponent mid).mono ?_
        rintro _ more ⟨part, rfl, hpart⟩
        refine ⟨'.' :: ds, part, ?_, .inr ⟨ds, rfl, hne, hds⟩, hpart⟩
        rw [hcs, hpoint]
        rfl
    · refine (on_skipOptionalExponent cs).mono ?_
      rintro _ more ⟨part, rfl, hpart⟩
      exact ⟨[], part, rfl, .inl rfl, hpart⟩
  · exact On.pure ⟨[], [], rfl, .inl rfl, .inl rfl⟩

theorem on_skipNumber (cs : List Char) :
    skipNumber.On cs fun _ rest => ∃ ds, cs = ds ++ rest ∧ Unsigned ds := by
  have hafter (whole mid : List Char) (hwhole : WholePart whole) :
      skipAfterWhole.On mid fun _ rest => ∃ ds, whole ++ mid = ds ++ rest ∧ Unsigned ds := by
    refine (on_skipAfterWhole mid).mono ?_
    rintro _ rest ⟨fraction, exponent, rfl, hfraction, hexponent⟩
    refine ⟨_, ?_, whole, fraction, exponent, rfl, hwhole, hfraction, hexponent⟩
    simp only [List.append_assoc]
  refine on_next_bind (fun _ => On.failHere (by decide)) (fun b rest hb hcs => ?_) fun b hb => ?_
  · dsimp only
    split
    · exact On.failHere (by decide)
    rename_i hdigit
    have hdigit : isDigit b = true := by simpa using hdigit
    split
    · rename_i hzero
      obtain rfl : cs = ['0'] ++ rest := by
        rw [hcs, hzero]
        rfl
      refine On.bind (on_peek rest) ?_
      rintro c? _ ⟨rfl, -⟩
      split
      · split
        · exact On.failNext (by decide)
        · exact hafter ['0'] _ (.inl rfl)
      · exact hafter ['0'] _ (.inl rfl)
    · rename_i hzero
      refine On.bind (on_digits rest) ?_
      rintro _ mid ⟨ds, rfl, hds, -⟩
      subst hcs
      refine hafter (Char.ofNat b.toNat :: ds) mid (.inr ⟨_, ds, rfl, ?_, ?_⟩)
      · intro heq
        have hval := toNat_ofNat_of_lt hb
        rw [heq] at hval
        exact hzero (UInt8.toNat_inj.mp hval.symm)
      · intro d hd
        obtain rfl | hd := List.mem_cons.mp hd
        · exact isDigit_ofNat hdigit
        · exact hds d hd
  · dsimp only
    rw [isDigit_of_beyond hb]
    exact rejects_failHere (by decide)

/-! ### Words -/

theorem on_wordRest (word : List Char) (h : ∀ c ∈ word, c.toNat < 0x80) (cs : List Char) :
    (wordRest (encoded word)).On cs fun _ rest => cs = word ++ rest := by
  induction word generalizing cs with
  | nil => exact On.pure rfl
  | cons c word ih =>
    have hc : c.toNat < 0x80 := h c List.mem_cons_self
    have hbyte : UInt8.ofNat c.toNat < 0x80 := by
      rw [UInt8.lt_iff_toNat_lt, Utf8.toNat_byte (by omega)]
      exact hc
    rw [encoded_cons_of_lt hc]
    refine on_next_bind (fun _ => On.failHere (by decide)) (fun b rest _ hcs => ?_) fun b hb => ?_
    · dsimp only
      split
      · rename_i heq
        refine (ih (fun d hd => h d (List.mem_cons_of_mem c hd)) rest).mono ?_
        rintro _ more rfl
        rw [hcs, heq, Utf8.toNat_byte (by omega), Char.ofNat_toNat]
        rfl
      · exact On.failHere (by decide)
    · dsimp only
      rw [if_neg (ne_of_le hb hbyte)]
      exact rejects_failHere (by decide)

theorem on_nullRest (cs : List Char) :
    nullRest.On cs fun _ rest => cs = 'u' :: 'l' :: 'l' :: rest :=
  on_wordRest ['u', 'l', 'l'] (by simp) cs

theorem on_trueRest (cs : List Char) :
    trueRest.On cs fun _ rest => cs = 'r' :: 'u' :: 'e' :: rest :=
  on_wordRest ['r', 'u', 'e'] (by simp) cs

theorem on_falseRest (cs : List Char) :
    falseRest.On cs fun _ rest => cs = 'a' :: 'l' :: 's' :: 'e' :: rest :=
  on_wordRest ['a', 'l', 's', 'e'] (by simp) cs

end Reader

end Json

end Storyboard
