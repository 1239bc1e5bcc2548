/-
Storyboard/Proofs/Json/Strings.lean

Strings read back from their written form.

A character is written as itself or as an escape (`Plain`, `Escaped`), and the
reader takes runs of plain bytes at once.  So the induction over the characters
of a string carries the plain bytes that were met since the last escape; they
are read together with what ends the run, an escape or the closing quote.
-/
import Storyboard.Json.Value
import Storyboard.Json.Strings
import Storyboard.Proofs.Json.Bytewise
import Storyboard.Proofs.Json.Utf8

namespace Storyboard

namespace Json

/-! ### Escapes -/

/-- Characters in bytes. -/
def encoded (chars : List Char) : List UInt8 := chars.flatMap String.utf8EncodeChar

theorem encoded_cons (c : Char) (cs : List Char) :
    encoded (c :: cs) = String.utf8EncodeChar c ++ encoded cs := List.flatMap_cons

theorem encoded_append (cs ds : List Char) : encoded (cs ++ ds) = encoded cs ++ encoded ds :=
  List.flatMap_append

/-- The character is written as itself, in plain bytes. -/
def Plain (c : Char) : Prop :=
  escape c = [c] ∧ ∀ b ∈ String.utf8EncodeChar c, isPlain b = true

/-- The character is written as an escape that stands for it. -/
def Escaped (c : Char) : Prop :=
  ∃ bytes, encoded (escape c) = backslash :: bytes ∧
    ∀ tail, Reader.escapeSequence.Yields (bytes ++ tail) (String.utf8EncodeChar c) tail

/-- A code below 32 with its four digits, as it is written. -/
theorem hexNumber?_encoded :
    ∀ n < 32, hexNumber? (encoded ['0', '0', hexDigit (n / 16), hexDigit (n % 16)]) = some n := by
  decide

theorem length_encoded_hexDigits :
    ∀ n < 32, (encoded ['0', '0', hexDigit (n / 16), hexDigit (n % 16)]).length = 4 := by
  decide

namespace Reader

/-- An escape of one letter. -/
theorem yields_simpleEscape {letter b : UInt8} (hletter : letter ≠ unicodeLetter)
    (h : simpleEscape? letter = some b) (tail : List UInt8) :
    escapeSequence.Yields (letter :: tail) [b] tail := by
  refine Yields.bind (yields_next letter tail) ?_
  show (if letter = unicodeLetter then _ else _ : Reader (List UInt8)).Yields tail [b] tail
  rw [if_neg hletter, h]
  exact Yields.pure [b] tail

theorem yields_fourDigits {digits : List UInt8} {n : Nat} (hlength : digits.length = 4)
    (hn : hexNumber? digits = some n) (tail : List UInt8) :
    fourDigits.Yields (digits ++ tail) n tail := by
  refine agrees_fourDigits.bySource.yields ?_
  intro i hi
  have hleft : ¬ i.left < 4 := by
    rw [i.left_eq, hi, List.length_append]
    omega
  have htake : i.rest.take 4 = digits := by
    rw [hi, ← hlength]
    exact List.take_left
  have hdrop : i.rest.drop 4 = tail := by
    rw [hi, ← hlength]
    exact List.drop_left
  refine ⟨i.skip 4, ?_, hdrop⟩
  rw [fourDigitsAtOnce, if_neg hleft, htake, hn]

/-- An escape by number, of a character that needs no second one. -/
theorem yields_unicodeEscape {digits : List UInt8} {n : Nat} (hlength : digits.length = 4)
    (hn : hexNumber? digits = some n) (hlt : n < 0xd800) (tail : List UInt8) :
    escapeSequence.Yields (unicodeLetter :: (digits ++ tail))
      (String.utf8EncodeChar (Char.ofNat n)) tail := by
  have hlow : isLowSurrogate n = false := by
    rw [isLowSurrogate, Bool.and_eq_false_iff, decide_eq_false_iff_not]
    exact .inl (by omega)
  have hhigh : isHighSurrogate n = false := by
    rw [isHighSurrogate, Bool.and_eq_false_iff, decide_eq_false_iff_not]
    exact .inl (by omega)
  have hchar : escapedChar.Yields (digits ++ tail) (Char.ofNat n) tail := by
    refine Yields.bind (yields_fourDigits hlength hn tail) ?_
    rw [hlow, hhigh]
    exact Yields.pure _ tail
  refine Yields.bind (yields_next unicodeLetter _) ?_
  show (if unicodeLetter = unicodeLetter then _ else _ : Reader (List UInt8)).Yields _ _ _
  rw [if_pos rfl]
  exact Yields.bind hchar (Yields.pure _ tail)

end Reader

/-! ### Characters -/

/-- A character that is not to be escaped consists of plain bytes. -/
theorem isPlain_of_mem {c : Char} (hquote : c ≠ '"') (hslash : c ≠ '\\') (hc : 32 ≤ c.toNat)
    {b : UInt8} (hb : b ∈ String.utf8EncodeChar c) : isPlain b = true := by
  have hplain : b.toNat ≠ 0x22 ∧ b.toNat ≠ 0x5c ∧ 0x20 ≤ b.toNat := by
    obtain hval | hge := Utf8.toNat_of_mem_encodeChar hb
    · rw [hval]
      refine ⟨fun h => hquote ?_, fun h => hslash ?_, hc⟩
      · exact Char.toNat_inj.mp h
      · exact Char.toNat_inj.mp h
    · omega
  obtain ⟨h₁, h₂, h₃⟩ := hplain
  rw [isPlain, Bool.and_eq_true, Bool.and_eq_true, bne_iff_ne, bne_iff_ne, decide_eq_true_iff]
  refine ⟨⟨?_, ?_⟩, UInt8.le_iff_toNat_le.mpr h₃⟩
  · intro h
    exact h₁ (congrArg UInt8.toNat h)
  · intro h
    exact h₂ (congrArg UInt8.toNat h)

/-- An escape of one letter, as it is written. -/
theorem escaped_of_letter {c : Char} {letter : UInt8}
    (hwritten : encoded (escape c) = [backslash, letter]) (hletter : letter ≠ unicodeLetter)
    (h : simpleEscape? letter = some (UInt8.ofNat c.toNat)) (hascii : c.toNat < 0x80) :
    Escaped c := by
  refine ⟨[letter], hwritten, fun tail => ?_⟩
  rw [Utf8.encodeChar_of_lt hascii]
  exact Reader.yields_simpleEscape hletter h tail

/-- An escape by number, as it is written. -/
theorem escaped_of_lt {c : Char} (hc : c.toNat < 32)
    (h : escape c = ['\\', 'u', '0', '0', hexDigit (c.toNat / 16), hexDigit (c.toNat % 16)]) :
    Escaped c := by
  have hchar : Char.ofNat c.toNat = c := Char.ofNat_toNat c
  refine ⟨unicodeLetter ::
    encoded ['0', '0', hexDigit (c.toNat / 16), hexDigit (c.toNat % 16)], ?_, fun tail => ?_⟩
  · rw [h]
    rfl
  · have hread := Reader.yields_unicodeEscape (length_encoded_hexDigits c.toNat hc)
      (hexNumber?_encoded c.toNat hc) (by omega) tail
    rw [hchar] at hread
    exact hread

theorem plain_or_escaped (c : Char) : Plain c ∨ Escaped c := by
  -- the two that are no control characters
  by_cases hquote : c = '"'
  · subst hquote
    exact .inr (escaped_of_letter rfl (by decide) rfl (by decide))
  by_cases hslash : c = '\\'
  · subst hslash
    exact .inr (escaped_of_letter rfl (by decide) rfl (by decide))
  by_cases hlt : c.toNat < 32
  · -- five control characters have a letter, the others are escaped by number
    right
    by_cases h8 : c.toNat = 8
    · obtain rfl : c = Char.ofNat 8 := Char.toNat_inj.mp h8
      exact escaped_of_letter rfl (by decide) rfl (by decide)
    by_cases h12 : c.toNat = 12
    · obtain rfl : c = Char.ofNat 12 := Char.toNat_inj.mp h12
      exact escaped_of_letter rfl (by decide) rfl (by decide)
    by_cases hn : c = '\n'
    · subst hn
      exact escaped_of_letter rfl (by decide) rfl (by decide)
    by_cases hr : c = '\r'
    · subst hr
      exact escaped_of_letter rfl (by decide) rfl (by decide)
    by_cases ht : c = '\t'
    · subst ht
      exact escaped_of_letter rfl (by decide) rfl (by decide)
    apply escaped_of_lt hlt
    rw [escape, if_neg hquote, if_neg hslash, if_neg h8, if_neg h12, if_neg hn, if_neg hr,
      if_neg ht, if_pos hlt]
  · -- every other character is none of those
    left
    have h8 : c.toNat ≠ 8 := by omega
    have h12 : c.toNat ≠ 12 := by omega
    have hn : c ≠ '\n' := fun h => hlt (h ▸ by decide)
    have hr : c ≠ '\r' := fun h => hlt (h ▸ by decide)
    have ht : c ≠ '\t' := fun h => hlt (h ▸ by decide)
    constructor
    · rw [escape, if_neg hquote, if_neg hslash, if_neg h8, if_neg h12, if_neg hn, if_neg hr,
        if_neg ht, if_neg hlt]
    · intro b hb
      exact isPlain_of_mem hquote hslash (Nat.le_of_not_lt hlt) hb

/-! ### Strings -/

namespace Reader

/-- Plain bytes, and the byte that ends them. -/
theorem run_isPlain_append {plain : List UInt8} (hplain : ∀ b ∈ plain, isPlain b = true)
    {b : UInt8} (hb : isPlain b = false) (rest : List UInt8) :
    (run isPlain).Yields (plain ++ b :: rest) plain (b :: rest) := by
  have h := yields_run isPlain (plain ++ b :: rest)
  have htake : (plain ++ b :: rest).takeWhile isPlain = plain := by
    rw [List.takeWhile_append_of_pos hplain, List.takeWhile_cons_of_neg (by rw [hb]; decide),
      List.append_nil]
  have hdrop : (plain ++ b :: rest).dropWhile isPlain = b :: rest := by
    rw [List.dropWhile_append_of_pos hplain, List.dropWhile_cons_of_neg (by rw [hb]; decide)]
  rw [htake, hdrop] at h
  exact h

theorem yields_nextInString (b : UInt8) (rest : List UInt8) :
    nextInString.Yields (b :: rest) b rest := by
  intro i hi
  obtain ⟨hnext, hrest⟩ := nextInString_of_cons hi
  exact ⟨_, hnext, hrest⟩

/-- The induction of this module: the characters `chars` are still to be read, and
`plain` are the bytes since the last escape. -/
theorem yields_content (chars : List Char) (plain found tail : List UInt8)
    (hplain : ∀ b ∈ plain, isPlain b = true) :
    (loop contentStep found).Yields
      (plain ++ (encoded (chars.flatMap escape) ++ quoteMark :: tail))
      (found.reverse ++ (plain ++ encoded chars)) tail := by
  induction chars generalizing plain found with
  | nil =>
    -- the closing quote ends the plain bytes
    have hstep : (contentStep found).Yields (plain ++ quoteMark :: tail)
        (.inr (plain.reverseAux found).reverse) tail := by
      refine Yields.bind (run_isPlain_append hplain rfl tail) ?_
      refine Yields.bind (yields_nextInString quoteMark tail) ?_
      exact Yields.pure _ tail
    have hresult : (plain.reverseAux found).reverse = found.reverse ++ (plain ++ encoded []) := by
      rw [List.reverseAux_eq, List.reverse_append, List.reverse_reverse]
      show _ = found.reverse ++ (plain ++ [])
      rw [List.append_nil]
    rw [← hresult]
    exact Yields.loop_stop hstep
  | cons c cs ih =>
    have hsplit : encoded ((c :: cs).flatMap escape) =
        encoded (escape c) ++ encoded (cs.flatMap escape) := by
      rw [List.flatMap_cons, encoded_append]
    rw [hsplit]
    obtain ⟨hself, hbytes⟩ | ⟨bytes, hwritten, hread⟩ := plain_or_escaped c
    · -- a plain character joins the bytes that are read together
      have hall : ∀ b ∈ plain ++ String.utf8EncodeChar c, isPlain b = true := by
        intro b hb
        obtain hb | hb := List.mem_append.mp hb
        · exact hplain b hb
        · exact hbytes b hb
      have h := ih (plain ++ String.utf8EncodeChar c) found hall
      have hone : encoded (escape c) = String.utf8EncodeChar c := by
        rw [hself, encoded_cons]
        exact List.append_nil _
      rw [hone, encoded_cons, List.append_assoc, ← List.append_assoc plain,
        ← List.append_assoc plain]
      exact h
    · -- an escape ends them, and what it stands for comes after them
      have hstep : (contentStep found).Yields
          (plain ++ backslash :: (bytes ++ (encoded (cs.flatMap escape) ++ quoteMark :: tail)))
          (.inl ((String.utf8EncodeChar c).reverseAux (plain.reverseAux found)))
          (encoded (cs.flatMap escape) ++ quoteMark :: tail) := by
        refine Yields.bind (run_isPlain_append hplain rfl _) ?_
        refine Yields.bind (yields_nextInString backslash _) ?_
        refine Yields.bind (hread _) ?_
        exact Yields.pure _ _
      have h := ih [] ((String.utf8EncodeChar c).reverseAux (plain.reverseAux found))
        (fun b hb => absurd hb List.not_mem_nil)
      have hresult : ((String.utf8EncodeChar c).reverseAux (plain.reverseAux found)).reverse ++
          ([] ++ encoded cs) = found.reverse ++ (plain ++ encoded (c :: cs)) := by
        simp only [encoded_cons, List.reverseAux_eq, List.reverse_append, List.reverse_reverse,
          List.nil_append, List.append_assoc]
      rw [hresult] at h
      rw [hwritten, List.cons_append, List.cons_append, List.append_assoc]
      refine Yields.loop_go hstep ?_ h
      simp only [List.length_append, List.length_cons]
      omega

/-- A string is read back from what is written between its quotes. -/
theorem yields_stringRest (s : String) (tail : List UInt8) :
    stringRest.Yields (encoded (s.toList.flatMap escape) ++ quoteMark :: tail) s tail := by
  have hcontent : content.Yields (encoded (s.toList.flatMap escape) ++ quoteMark :: tail)
      (encoded s.toList) tail :=
    agrees_content.yields (yields_content s.toList [] [] tail
      (fun b hb => absurd hb List.not_mem_nil))
  refine Yields.bind hcontent ?_
  intro i hi
  refine ⟨i, ?_, hi⟩
  rw [decoded, encoded, Utf8.decode_encode]
  show Outcome.ok (String.ofList s.toList) i = .ok s i
  rw [String.ofList_toList]

end Reader

/-- The bytes of a written string. -/
theorem encode_quote (s : String) :
    Utf8.encode (quote s) = quoteMark :: (encoded (s.toList.flatMap escape) ++ [quoteMark]) := by
  rw [quote, Utf8.encode_ofList]
  show encoded ('"' :: (s.toList.flatMap escape ++ ['"'])) = _
  rw [encoded_cons, encoded_append]
  rfl

end Json

end Storyboard
