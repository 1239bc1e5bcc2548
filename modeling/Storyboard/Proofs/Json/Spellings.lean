/-
Storyboard/Proofs/Json/Spellings.lean

The strings that readers accept.

A reader of a string accepts exactly what a `Spelling` spells, and answers the text that
it stands for (`on_stringRest`).  One that only passes over a string also accepts a
spelling that stands for nothing (`on_skipString`).
-/
import Storyboard.Proofs.Json.OnText

namespace Storyboard

namespace Json

/-! ### Bytes and characters -/

theorem ne_of_le {b k : UInt8} (hb : 0x80 ≤ b) (hk : k < 0x80) : b ≠ k := by
  rintro rfl
  exact absurd hb (UInt8.not_le.mpr hk)

theorem uniform_isPlain : Uniform isPlain := by
  have hplain {b : UInt8} (hb : 0x80 ≤ b) : isPlain b = true := by
    rw [isPlain, Bool.and_eq_true, Bool.and_eq_true, bne_iff_ne, bne_iff_ne, decide_eq_true_iff]
    exact ⟨⟨ne_of_le hb (by decide), ne_of_le hb (by decide)⟩, UInt8.le_trans (by decide) hb⟩
  intro b hb
  rw [hplain hb]
  rfl

/-- A character that plain bytes make stands for itself. -/
theorem plain_of_testsChar {c : Char} (h : testsChar isPlain c = true) :
    c ≠ '"' ∧ c ≠ '\\' ∧ 0x20 ≤ c.toNat := by
  rw [testsChar] at h
  split at h
  · rename_i hascii
    rw [isPlain, Bool.and_eq_true, Bool.and_eq_true, bne_iff_ne, bne_iff_ne,
      decide_eq_true_iff] at h
    obtain ⟨⟨hquote, hslash⟩, hcontrol⟩ := h
    refine ⟨?_, ?_, ?_⟩
    · rintro rfl
      exact hquote rfl
    · rintro rfl
      exact hslash rfl
    · have hle := UInt8.le_iff_toNat_le.mp hcontrol
      rw [Utf8.toNat_byte (by omega)] at hle
      exact hle
  · rename_i hbeyond
    refine ⟨?_, ?_, by omega⟩
    · rintro rfl
      exact hbeyond (by decide)
    · rintro rfl
      exact hbeyond (by decide)

theorem uniform_isDigit : Uniform isDigit := by
  intro b hb
  have hnot : ¬ b ≤ 0x39 := UInt8.not_le.mpr (UInt8.lt_of_lt_of_le (by decide) hb)
  rw [isDigit, decide_eq_false hnot, Bool.and_false]
  rfl

theorem lt_of_isDigit {b : UInt8} (h : isDigit b = true) : b < 0x80 := by
  rw [isDigit, Bool.and_eq_true, decide_eq_true_iff, decide_eq_true_iff] at h
  exact UInt8.lt_of_le_of_lt h.2 (by decide)

theorem isDigit_of_beyond {b : UInt8} (h : 0x80 ≤ b) : isDigit b = false := uniform_isDigit b h

theorem isDigit_of_testsChar {c : Char} (h : testsChar isDigit c = true) : c.isDigit = true := by
  rw [testsChar] at h
  split at h
  · rename_i hascii
    rw [isDigit, Bool.and_eq_true, decide_eq_true_iff, decide_eq_true_iff, UInt8.le_iff_toNat_le,
      UInt8.le_iff_toNat_le, Utf8.toNat_byte (by omega)] at h
    rw [Char.isDigit, Bool.and_eq_true, decide_eq_true_iff, decide_eq_true_iff]
    exact ⟨UInt32.le_iff_toNat_le.mpr h.1, UInt32.le_iff_toNat_le.mpr h.2⟩
  · cases h

/-- The character of a digit. -/
theorem isDigit_ofNat {b : UInt8} (h : isDigit b = true) :
    (Char.ofNat b.toNat).isDigit = true := by
  have hb : b < 0x80 := lt_of_isDigit h
  apply isDigit_of_testsChar
  have hlt : b.toNat < 0x80 := UInt8.lt_iff_toNat_lt.mp hb
  rw [testsChar, toNat_ofNat_of_lt hb, if_pos hlt, UInt8.ofNat_toNat]
  exact h

/-- A hexadecimal digit in bytes. -/
theorem hexDigit_of_hexValue? {b : UInt8} {n : Nat} (h : hexValue? b = some n) :
    b < 0x80 ∧ hexDigitValue? (Char.ofNat b.toNat) = some n := by
  have hall : ∀ k < 256, hexValue? (.ofNat k) =
      if k < 0x80 then hexDigitValue? (Char.ofNat k) else none := by decide +kernel
  have hb := hall b.toNat b.toNat_lt
  rw [UInt8.ofNat_toNat, h] at hb
  split at hb
  · rename_i hlt
    exact ⟨UInt8.lt_iff_toNat_lt.mpr hlt, hb.symm⟩
  · cases hb

/-- The letter of an escape in bytes. -/
theorem letterEscape_of_simpleEscape? {letter b : UInt8} (h : simpleEscape? letter = some b) :
    letter < 0x80 ∧ b < 0x80 ∧ (Char.ofNat letter.toNat, Char.ofNat b.toNat) ∈ letterEscapes := by
  rw [simpleEscape?] at h
  split at h
  · rename_i hself
    obtain rfl := Option.some.inj h
    obtain rfl | rfl | rfl := hself <;> decide
  split at h
  · rename_i heq
    obtain rfl := Option.some.inj h
    subst heq
    decide
  split at h
  · rename_i heq
    obtain rfl := Option.some.inj h
    subst heq
    decide
  split at h
  · rename_i heq
    obtain rfl := Option.some.inj h
    subst heq
    decide
  split at h
  · rename_i heq
    obtain rfl := Option.some.inj h
    subst heq
    decide
  split at h
  · rename_i heq
    obtain rfl := Option.some.inj h
    subst heq
    decide
  · cases h

namespace Reader

variable {cs : List Char}

/-! ### Escapes -/

/-- The first byte is a hexadecimal digit. -/
theorem exists_hexDigit {b : UInt8} {bytes : List UInt8} {n : Nat} (hcs : encoded cs = b :: bytes)
    (h : hexValue? b = some n) :
    ∃ (d : HexDigit) (rest : List Char), cs = d.char :: rest ∧ bytes = encoded rest ∧
      d.value = n := by
  obtain ⟨hb, hvalue⟩ := hexDigit_of_hexValue? h
  obtain ⟨rest, rfl⟩ := eq_cons_of_head (by rw [hcs]; rfl) hb
  rw [encoded_ofNat_cons hb] at hcs
  exact ⟨⟨_, n, hvalue⟩, rest, rfl, (List.cons.inj hcs).2.symm, rfl⟩

/-- The first four bytes are hexadecimal digits. -/
theorem exists_fourDigits {bytes : List UInt8} {n : Nat} (hcs : bytes = encoded cs)
    (hlength : 4 ≤ bytes.length) (h : hexNumber? (bytes.take 4) = some n) :
    ∃ (a b c d : HexDigit) (rest : List Char), cs = a.char :: b.char :: c.char :: d.char :: rest ∧
      bytes.drop 4 = encoded rest ∧ n = fourDigitNumber a b c d := by
  obtain ⟨w, x, y, z, more, rfl⟩ : ∃ w x y z more, bytes = w :: x :: y :: z :: more := by
    match bytes, hlength with
    | w :: x :: y :: z :: more, _ => exact ⟨w, x, y, z, more, rfl⟩
  simp only [hexNumber?, List.take_succ_cons, List.take_zero, List.foldlM_cons,
    List.foldlM_nil, Option.bind_eq_bind, Option.bind_eq_some_iff, Option.map_eq_some_iff,
    Option.pure_def, Option.some.injEq] at h
  obtain ⟨_, ⟨w', hw, rfl⟩, _, ⟨x', hx, rfl⟩, _, ⟨y', hy, rfl⟩, _, ⟨z', hz, rfl⟩, rfl⟩ := h
  obtain ⟨a, cs₁, rfl, h₁, rfl⟩ := exists_hexDigit hcs.symm hw
  obtain ⟨b, cs₂, rfl, h₂, rfl⟩ := exists_hexDigit h₁.symm hx
  obtain ⟨c, cs₃, rfl, h₃, rfl⟩ := exists_hexDigit h₂.symm hy
  obtain ⟨d, cs₄, rfl, h₄, rfl⟩ := exists_hexDigit h₃.symm hz
  refine ⟨a, b, c, d, cs₄, rfl, h₄, ?_⟩
  rw [fourDigitNumber]
  omega

theorem on_fourDigits (cs : List Char) :
    fourDigits.On cs fun n rest => ∃ a b c d : HexDigit,
      cs = a.char :: b.char :: c.char :: d.char :: rest ∧ n = fourDigitNumber a b c d := by
  refine On.of_agrees agrees_fourDigits.bySource ?_
  intro i hi
  rw [fourDigitsAtOnce]
  by_cases hleft : i.left < 4
  · rw [if_pos hleft]
    exact (by decide : Fault.endInString ≠ .invalidUtf8)
  · rw [if_neg hleft]
    rw [i.left_eq] at hleft
    cases h : hexNumber? (i.rest.take 4) with
    | none => exact (by decide : Fault.invalidEscape ≠ .invalidUtf8)
    | some n =>
      obtain ⟨a, b, c, d, rest, hcs, hdrop, hn⟩ :=
        exists_fourDigits hi (Nat.le_of_not_lt hleft) h
      exact ⟨rest, hdrop, a, b, c, d, hcs, hn⟩

theorem on_pairByte {expected : UInt8} (h : expected < 0x80) (cs : List Char) :
    (pairByte expected).On cs fun _ rest => cs = Char.ofNat expected.toNat :: rest := by
  refine on_next_bind (fun _ => On.failHere (by decide)) (fun b rest _ hcs => ?_) fun b hb => ?_
  · dsimp only
    split
    · rename_i heq
      exact On.pure (by rw [hcs, heq])
    · exact On.failHere (by decide)
  · dsimp only
    rw [if_neg (ne_of_le hb h)]
    exact rejects_failHere (by decide)

/-- The digits of an escape by number make a character, alone or with a second escape. -/
theorem on_escapedChar (cs : List Char) :
    escapedChar.On cs fun c rest => ∃ s : Spelling, '\\' :: 'u' :: cs = s.written ++ rest ∧
      s.charsAfter none = some [c] := by
  refine On.bind (on_fourDigits cs) ?_
  rintro n mid ⟨a, b, c, d, rfl, rfl⟩
  split
  · exact On.failHere (by decide)
  rename_i hlow
  split
  · rename_i hhigh
    -- the second half follows
    refine On.bind (on_pairByte (by decide) mid) ?_
    rintro _ mid₁ rfl
    refine On.bind (on_pairByte (by decide) mid₁) ?_
    rintro _ mid₂ rfl
    refine On.bind (on_fourDigits mid₂) ?_
    rintro m rest ⟨a', b', c', d', rfl, rfl⟩
    split
    · rename_i hlow'
      refine On.pure ⟨[.code a b c d, .code a' b' c' d'], rfl, ?_⟩
      rw [Spelling.charsAfter, if_neg hlow, if_pos hhigh, Spelling.charsAfter, if_pos hlow']
      rfl
    · exact On.failHere (by decide)
  · rename_i hhigh
    refine On.pure ⟨[.code a b c d], rfl, ?_⟩
    rw [Spelling.charsAfter, if_neg hlow, if_neg hhigh]
    rfl

theorem on_escapeSequence (cs : List Char) :
    escapeSequence.On cs fun bytes rest => ∃ (s : Spelling) (chars : List Char),
      '\\' :: cs = s.written ++ rest ∧ s.charsAfter none = some chars ∧ bytes = encoded chars := by
  refine on_next_bind (fun _ => On.failHere (by decide)) (fun b rest hb hcs => ?_) fun b hb => ?_
  · dsimp only
    split
    · rename_i hletter
      refine On.bind (on_escapedChar rest) ?_
      rintro c more ⟨s, hs, hchars⟩
      refine On.pure ⟨s, [c], ?_, hchars, ?_⟩
      · rw [hcs, hletter]
        exact hs
      · rw [encoded_cons, encoded_nil, List.append_nil]
    · split
      · rename_i d hd
        obtain ⟨-, hd', hletter⟩ := letterEscape_of_simpleEscape? hd
        refine On.pure ⟨[.letter _ _ hletter], [Char.ofNat d.toNat], by rw [hcs]; rfl, rfl, ?_⟩
        rw [encoded_ofNat_cons hd', encoded_nil]
      · exact On.failHere (by decide)
  · dsimp only
    rw [if_neg (ne_of_le hb (by decide))]
    split
    · rename_i d hd
      exact absurd hb (UInt8.not_le.mpr (letterEscape_of_simpleEscape? hd).1)
    · exact rejects_failHere (by decide)

/-! ### Strings -/

/-- The byte with which a string goes on. -/
theorem on_nextInString_bind {α : Type} {f : UInt8 → Reader α} {post : α → List Char → Prop}
    (hascii : ∀ b rest, b < 0x80 → cs = Char.ofNat b.toNat :: rest → (f b).On rest post)
    (hbeyond : ∀ b, 0x80 ≤ b → Rejects (f b)) : (nextInString >>= f).On cs post := by
  rw [nextInString, bind_assoc]
  refine on_next_bind (fun _ => ?_) hascii hbeyond
  have hend : (failHere .endInString : Reader UInt8).On [] fun _ _ => False :=
    On.failHere (by decide)
  exact On.bind hend fun _ _ h => h.elim

/-- A run of plain bytes is a run of characters that stand for themselves. -/
theorem on_runPlain (cs : List Char) :
    (run isPlain).On cs fun bytes rest => ∃ (s : Spelling) (chars : List Char),
      cs = s.written ++ rest ∧ s.charsAfter none = some chars ∧ bytes = encoded chars := by
  refine (on_run uniform_isPlain cs).mono ?_
  rintro bytes rest ⟨front, rfl, rfl, hfront, -⟩
  suffices ∃ s : Spelling, front = s.written ∧ s.charsAfter none = some front by
    obtain ⟨s, hs, hchars⟩ := this
    exact ⟨s, front, by rw [← hs], hchars, rfl⟩
  clear rest
  induction front with
  | nil => exact ⟨[], rfl, rfl⟩
  | cons c front ih =>
    obtain ⟨s, hs, hchars⟩ := ih fun d hd => hfront d (List.mem_cons_of_mem c hd)
    have hc := plain_of_testsChar (hfront c List.mem_cons_self)
    refine ⟨.plain c hc :: s, ?_, ?_⟩
    · rw [hs]
      rfl
    · rw [Spelling.charsAfter, hchars]
      rfl

/-- The bytes that were found are those of the parts before, and the rest is still to be
read. -/
theorem on_contentStep (found : List UInt8) (cs : List Char) :
    (contentStep found).On cs fun out rest => ∃ (s : Spelling) (chars : List Char),
      s.charsAfter none = some chars ∧
        Sum.elim
          (fun more => cs = s.written ++ rest ∧ more.reverse = found.reverse ++ encoded chars)
          (fun bytes => cs = s.written ++ '"' :: rest ∧ bytes = found.reverse ++ encoded chars)
          out := by
  refine On.bind (on_runPlain cs) ?_
  rintro bytes mid ⟨s, chars, rfl, hchars, rfl⟩
  have hfound : ((encoded chars).reverseAux found).reverse = found.reverse ++ encoded chars := by
    rw [List.reverseAux_eq, List.reverse_append, List.reverse_reverse]
  refine on_nextInString_bind (fun b rest _ hmid => ?_) fun b hb => ?_
  · rw [contentEdge]
    split
    · rename_i hquote
      refine On.pure ⟨s, chars, hchars, ?_, hfound⟩
      rw [hmid, hquote]
      rfl
    split
    · rename_i hslash
      refine On.bind (on_escapeSequence rest) ?_
      rintro bytes more ⟨t, chars', ht, hchars', rfl⟩
      refine On.pure ⟨s ++ t, chars ++ chars', Spelling.charsAfter_append hchars hchars', ?_, ?_⟩
      · rw [hmid, hslash, Spelling.written_append, List.append_assoc]
        exact congrArg (s.written ++ ·) ht
      · rw [List.reverseAux_eq, List.reverse_append, List.reverse_reverse, hfound, encoded_append,
          List.append_assoc]
    · exact On.failHere (by decide)
  · rw [contentEdge, if_neg (ne_of_le hb (by decide)), if_neg (ne_of_le hb (by decide))]
    exact rejects_failHere (by decide)

theorem on_content (cs : List Char) :
    content.On cs fun bytes rest => ∃ (s : Spelling) (chars : List Char),
      cs = s.written ++ '"' :: rest ∧ s.charsAfter none = some chars ∧ bytes = encoded chars := by
  refine On.of_agrees agrees_content ?_
  -- what was found so far is what the parts before stand for
  refine On.loop (fun found mid => ∃ (s : Spelling) (chars : List Char),
    cs = s.written ++ mid ∧ s.charsAfter none = some chars ∧ found.reverse = encoded chars) ?_
    ⟨[], [], rfl, rfl, rfl⟩
  rintro found mid ⟨s, chars, rfl, hchars, hfound⟩
  refine (on_contentStep found mid).mono ?_
  rintro out rest ⟨t, chars', hchars', hout⟩
  have hall := Spelling.charsAfter_append hchars hchars'
  cases out with
  | inl more =>
    obtain ⟨rfl, hmore⟩ := hout
    refine ⟨s ++ t, chars ++ chars', ?_, hall, ?_⟩
    · rw [Spelling.written_append, List.append_assoc]
    · rw [hmore, hfound, encoded_append]
  | inr bytes =>
    obtain ⟨rfl, hbytes⟩ := hout
    refine ⟨s ++ t, chars ++ chars', ?_, hall, ?_⟩
    · rw [Spelling.written_append, List.append_assoc]
    · rw [hbytes, hfound, encoded_append]

theorem on_stringRest (cs : List Char) :
    stringRest.On cs fun text rest => ∃ s : Spelling, cs = s.written ++ '"' :: rest ∧
      s.text? = some text := by
  refine On.bind (on_content cs) ?_
  rintro bytes rest ⟨s, chars, rfl, hchars, rfl⟩
  intro i hi
  rw [decoded, encoded, Utf8.decode_encode]
  refine ⟨rest, hi, s, rfl, ?_⟩
  rw [Spelling.text?, hchars]
  rfl

/-! ### Strings that are passed over -/

theorem on_skipEscape (cs : List Char) :
    skipEscape.On cs fun _ rest => ∃ p : Piece, '\\' :: cs = p.written ++ rest := by
  refine on_next_bind (fun _ => On.failHere (by decide)) (fun b rest hb hcs => ?_) fun b hb => ?_
  · dsimp only
    split
    · rename_i hletter
      refine On.bind (on_fourDigits rest) ?_
      rintro n more ⟨a, b', c, d, rfl, -⟩
      refine On.pure ⟨.code a b' c d, ?_⟩
      rw [hcs, hletter]
      rfl
    split
    · rename_i hsome
      obtain ⟨d, hd⟩ := Option.isSome_iff_exists.mp hsome
      obtain ⟨-, -, hletter⟩ := letterEscape_of_simpleEscape? hd
      exact On.pure ⟨.letter _ _ hletter, by rw [hcs]; rfl⟩
    · exact On.failHere (by decide)
  · dsimp only
    rw [if_neg (ne_of_le hb (by decide))]
    split
    · rename_i hsome
      obtain ⟨d, hd⟩ := Option.isSome_iff_exists.mp hsome
      exact absurd hb (UInt8.not_le.mpr (letterEscape_of_simpleEscape? hd).1)
    · exact rejects_failHere (by decide)

theorem on_skipString (cs : List Char) :
    skipString.On cs fun _ rest => ∃ s : Spelling, cs = s.written ++ '"' :: rest := by
  refine On.of_agrees agrees_skipString ?_
  refine On.loop (fun _ mid => ∃ s : Spelling, cs = s.written ++ mid) ?_ ⟨[], rfl⟩
  rintro _ mid ⟨s, rfl⟩
  refine On.bind (on_runPlain mid) ?_
  rintro bytes mid ⟨t, -, rfl, -, -⟩
  refine On.bind (on_peek mid) ?_
  rintro b? _ ⟨rfl, hb⟩
  split
  · exact On.failHere (by decide)
  rename_i b
  split
  · rename_i hquote
    refine on_skip_bind hb.symm (by rw [hquote]; decide) fun rest hmid => On.pure ⟨s ++ t, ?_⟩
    rw [hmid, hquote, Spelling.written_append, List.append_assoc]
    rfl
  split
  · rename_i hslash
    refine on_skip_bind hb.symm (by rw [hslash]; decide) fun rest hmid => ?_
    refine On.bind (on_skipEscape rest) ?_
    rintro _ more ⟨p, hp⟩
    refine On.pure ⟨s ++ (t ++ [p]), ?_⟩
    have hslash' : Char.ofNat b.toNat = '\\' := by rw [hslash]; rfl
    rw [hmid, hslash', hp, Spelling.written_append, Spelling.written_append, List.append_assoc,
      List.append_assoc, Spelling.written, Spelling.written, Spelling.written,
      List.flatMap_singleton]
  · exact On.failHere (by decide)

end Reader

end Json

end Storyboard
