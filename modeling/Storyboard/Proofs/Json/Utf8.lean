/-
Storyboard/Proofs/Json/Utf8.lean

Decoding and encoding undo each other.

A character has one to four bytes, and the first byte alone says how many.  The
lengths are the four branches of `String.utf8EncodeChar`, each with its bounds
on the code, and `decodeFirst` takes the same four.  So the bytes of a text are
decoded to it (`text?_encode`), and no other bytes are (`text?_eq_some_iff`).
-/
import Storyboard.Json.Utf8

namespace Storyboard

namespace Utf8

/-! ### Encoded characters -/

theorem encodeChar_of_lt {c : Char} (h : c.toNat < 0x80) :
    String.utf8EncodeChar c = [UInt8.ofNat c.toNat] := by
  have hle : c.val.toNat ≤ 0x7f := Nat.le_of_lt_succ h
  show (if c.val.toNat ≤ 0x7f then _ else _) = _
  rw [if_pos hle]
  rfl

theorem toNat_byte {n : Nat} (h : n < 0x100) : (UInt8.ofNat n).toNat = n := by
  rw [UInt8.toNat_ofNat']
  exact Nat.mod_eq_of_lt h

theorem le_byte {n : Nat} (h : 0x80 ≤ n) (h' : n < 0x100) : 0x80 ≤ UInt8.ofNat n := by
  rw [UInt8.le_iff_toNat_le, toNat_byte h']
  exact h

/-- Characters beyond ASCII have no byte in common with it. -/
theorem le_of_mem_encodeChar {c : Char} (h : 0x80 ≤ c.toNat) {b : UInt8}
    (hb : b ∈ String.utf8EncodeChar c) : 0x80 ≤ b := by
  have hlt : ¬ c.val.toNat ≤ 0x7f := Nat.not_le.mpr h
  rw [String.utf8EncodeChar, if_neg hlt] at hb
  -- the first byte is at least `0xc0`, the others are at least `0x80`
  split at hb
  · simp only [List.mem_cons, List.not_mem_nil, or_false] at hb
    obtain rfl | rfl := hb <;> exact le_byte (by omega) (by omega)
  split at hb
  · simp only [List.mem_cons, List.not_mem_nil, or_false] at hb
    obtain rfl | rfl | rfl := hb <;> exact le_byte (by omega) (by omega)
  · simp only [List.mem_cons, List.not_mem_nil, or_false] at hb
    obtain rfl | rfl | rfl | rfl := hb <;> exact le_byte (by omega) (by omega)

/-- A byte of a character is its code, or beyond ASCII. -/
theorem toNat_of_mem_encodeChar {c : Char} {b : UInt8} (hb : b ∈ String.utf8EncodeChar c) :
    b.toNat = c.toNat ∨ 0x80 ≤ b.toNat := by
  by_cases hascii : c.toNat < 0x80
  · rw [encodeChar_of_lt hascii, List.mem_singleton] at hb
    rw [hb]
    exact .inl (toNat_byte (by omega))
  · have hge : 0x80 ≤ b := le_of_mem_encodeChar (Nat.le_of_not_lt hascii) hb
    exact .inr (UInt8.le_iff_toNat_le.mp hge)

/-! ### Bytes that continue a character -/

/-- A byte that continues a character, by the six bits it carries. -/
def continuation (bits : Nat) : UInt8 := UInt8.ofNat (bits % 64 + 0x80)

theorem between_iff {low high a : UInt8} :
    (low ≤ a && a < high) = true ↔ low.toNat ≤ a.toNat ∧ a.toNat < high.toNat := by
  rw [Bool.and_eq_true, decide_eq_true_iff, decide_eq_true_iff, UInt8.le_iff_toNat_le,
    UInt8.lt_iff_toNat_lt]

theorem between_eq_false {low high a : UInt8} (h : high.toNat ≤ a.toNat) :
    (low ≤ a && a < high) = false := by
  rw [← Bool.not_eq_true, between_iff]
  omega

theorem isContinuation_continuation (n : Nat) : isContinuation (continuation n) = true := by
  have h : (continuation n).toNat = n % 64 + 0x80 := toNat_byte (by omega)
  rw [isContinuation, between_iff, h]
  show 0x80 ≤ n % 64 + 0x80 ∧ n % 64 + 0x80 < 0xc0
  omega

theorem continuationBits_continuation (n : Nat) : continuationBits (continuation n) = n % 64 := by
  have h : (continuation n).toNat = n % 64 + 0x80 := toNat_byte (by omega)
  rw [continuationBits, h]
  omega

/-! ### Characters by their length -/

variable {a : UInt8}

theorem decodeFirst_one (h : a.toNat < 0x80) (rest : List UInt8) :
    decodeFirst (a :: rest) = (charFrom 0 a.toNat).map (·, rest) := by
  have ha : a < 0x80 := UInt8.lt_iff_toNat_lt.mpr h
  rw [decodeFirst.eq_def]
  show (if a < 0x80 then _ else _) = _
  rw [if_pos ha]

/-- The first byte of a longer character is none of ASCII. -/
theorem not_lt_of_le {n : Nat} (h : n ≤ a.toNat) (hn : 0x80 ≤ n) : ¬ a < 0x80 := by
  rw [UInt8.lt_iff_toNat_lt]
  exact Nat.not_lt.mpr (Nat.le_trans hn h)

theorem decodeFirst_two (h : 0xc0 ≤ a.toNat) (h' : a.toNat < 0xe0) (m : Nat)
    (rest : List UInt8) :
    decodeFirst (a :: continuation m :: rest) =
      (charFrom 0x80 (a.toNat % 32 * 64 + m % 64)).map (·, rest) := by
  have ha : ¬ a < 0x80 := not_lt_of_le h (by decide)
  have htwo : (0xc0 ≤ a && a < 0xe0) = true := between_iff.mpr ⟨h, h'⟩
  rw [decodeFirst.eq_def]
  simp only [ha, isContinuation_continuation, continuationBits_continuation, htwo, Bool.not_true,
    Bool.false_eq_true, if_true, if_false]

theorem decodeFirst_three (h : 0xe0 ≤ a.toNat) (h' : a.toNat < 0xf0) (m n : Nat)
    (rest : List UInt8) :
    decodeFirst (a :: continuation m :: continuation n :: rest) =
      (charFrom 0x800 ((a.toNat % 16 * 64 + m % 64) * 64 + n % 64)).map (·, rest) := by
  have ha : ¬ a < 0x80 := not_lt_of_le h (by decide)
  have htwo : (0xc0 ≤ a && a < 0xe0) = false := between_eq_false h
  have hthree : (0xe0 ≤ a && a < 0xf0) = true := between_iff.mpr ⟨h, h'⟩
  rw [decodeFirst.eq_def]
  simp only [ha, isContinuation_continuation, continuationBits_continuation, htwo, hthree,
    Bool.not_true, Bool.false_eq_true, if_true, if_false]

theorem decodeFirst_four (h : 0xf0 ≤ a.toNat) (h' : a.toNat < 0xf8) (l m n : Nat)
    (rest : List UInt8) :
    decodeFirst (a :: continuation l :: continuation m :: continuation n :: rest) =
      (charFrom 0x10000 (((a.toNat % 8 * 64 + l % 64) * 64 + m % 64) * 64 + n % 64)).map
        (·, rest) := by
  have ha : ¬ a < 0x80 := not_lt_of_le h (by decide)
  have htwo : (0xc0 ≤ a && a < 0xe0) = false :=
    between_eq_false (Nat.le_trans (by decide) h)
  have hthree : (0xe0 ≤ a && a < 0xf0) = false := between_eq_false h
  have hfour : (0xf0 ≤ a && a < 0xf8) = true := between_iff.mpr ⟨h, h'⟩
  rw [decodeFirst.eq_def]
  simp only [ha, isContinuation_continuation, continuationBits_continuation, htwo, hthree, hfour,
    Bool.not_true, Bool.false_eq_true, if_true, if_false]

/-! ### Decoding what was encoded -/

/-- A code that is long enough is taken. -/
theorem charFrom_eq {least code : Nat} {c : Char} (h : least ≤ code) (hc : code = c.toNat) :
    charFrom least code = some c := by
  subst hc
  rw [charFrom, dif_pos ⟨h, c.valid⟩]
  congr 1
  apply Char.ext
  exact UInt32.ofNat_toNat

theorem decodeFirst_encodeChar (c : Char) (rest : List UInt8) :
    decodeFirst (String.utf8EncodeChar c ++ rest) = some (c, rest) := by
  have hvalid : c.toNat < 0x110000 := by
    have h : c.toNat.isValidChar := c.valid
    rw [Nat.isValidChar] at h
    omega
  have hcode : c.val.toNat = c.toNat := rfl
  rw [String.utf8EncodeChar, hcode]
  -- one case for each length; its bounds are those of the first byte
  split
  · have ha : (UInt8.ofNat c.toNat).toNat = c.toNat := toNat_byte (by omega)
    show decodeFirst (UInt8.ofNat c.toNat :: rest) = _
    rw [decodeFirst_one (by omega), charFrom_eq (Nat.zero_le _) ha]
    rfl
  split
  · have ha : (UInt8.ofNat (c.toNat / 64 % 32 + 0xc0)).toNat = c.toNat / 64 % 32 + 0xc0 :=
      toNat_byte (by omega)
    show decodeFirst (UInt8.ofNat (c.toNat / 64 % 32 + 0xc0) :: continuation c.toNat :: rest) = _
    rw [decodeFirst_two (by omega) (by omega), charFrom_eq (c := c) (by omega) (by omega)]
    rfl
  split
  · have ha : (UInt8.ofNat (c.toNat / 4096 % 16 + 0xe0)).toNat = c.toNat / 4096 % 16 + 0xe0 :=
      toNat_byte (by omega)
    show decodeFirst (UInt8.ofNat (c.toNat / 4096 % 16 + 0xe0) ::
      continuation (c.toNat / 64) :: continuation c.toNat :: rest) = _
    rw [decodeFirst_three (by omega) (by omega), charFrom_eq (c := c) (by omega) (by omega)]
    rfl
  · have ha : (UInt8.ofNat (c.toNat / 262144 % 8 + 0xf0)).toNat = c.toNat / 262144 % 8 + 0xf0 :=
      toNat_byte (by omega)
    show decodeFirst (UInt8.ofNat (c.toNat / 262144 % 8 + 0xf0) ::
      continuation (c.toNat / 4096) :: continuation (c.toNat / 64) :: continuation c.toNat ::
      rest) = _
    rw [decodeFirst_four (by omega) (by omega), charFrom_eq (c := c) (by omega) (by omega)]
    rfl

/-- Each character takes one step, and none is left over. -/
theorem decodeOnto_encode (chars found : List Char) (n : Nat) (hn : chars.length ≤ n) :
    decodeOnto n found (chars.flatMap String.utf8EncodeChar) = (found.reverse ++ chars, []) := by
  induction chars generalizing n found with
  | nil =>
    cases n with
    | zero => simp only [decodeOnto, List.flatMap_nil, List.append_nil]
    | succ n => simp only [decodeOnto, List.flatMap_nil, List.append_nil, decodeFirst]
  | cons c cs ih =>
    -- a character is left, so a step is left
    obtain ⟨n, rfl⟩ : ∃ k, n = k + 1 := ⟨n - 1, by simp only [List.length_cons] at hn; omega⟩
    rw [List.flatMap_cons, decodeOnto, decodeFirst_encodeChar]
    show decodeOnto n (c :: found) (cs.flatMap String.utf8EncodeChar) = _
    rw [ih (c :: found) n (Nat.le_of_succ_le_succ hn), List.reverse_cons, List.append_assoc]
    rfl

theorem length_le_length_encode (chars : List Char) :
    chars.length ≤ (chars.flatMap String.utf8EncodeChar).length := by
  induction chars with
  | nil => exact Nat.le_refl 0
  | cons c cs ih =>
    have hpos : 0 < (String.utf8EncodeChar c).length :=
      List.length_pos_iff.mpr String.utf8EncodeChar_ne_nil
    rw [List.flatMap_cons, List.length_append, List.length_cons]
    omega

theorem decode_encode (chars : List Char) :
    decode (chars.flatMap String.utf8EncodeChar) = (chars, []) := by
  rw [decode, decodeOnto_encode chars [] _ (length_le_length_encode chars)]
  rfl

/-! ### Texts -/

theorem encode_append (s t : String) : encode (s ++ t) = encode s ++ encode t := by
  rw [encode, encode, encode, String.toList_append, List.flatMap_append]

theorem encode_ofList (chars : List Char) :
    encode (String.ofList chars) = chars.flatMap String.utf8EncodeChar := by
  rw [encode, String.toList_ofList]

theorem text?_encode (s : String) : text? (encode s) = some s := by
  rw [text?, encode, decode_encode]
  show some (String.ofList s.toList) = some s
  rw [String.ofList_toList]

/-! ### Encoding what was decoded -/

theorem ofNat_eq_of_toNat {a : UInt8} {n : Nat} (h : n = a.toNat) : UInt8.ofNat n = a := by
  rw [h]
  exact UInt8.ofNat_toNat

theorem continuation_eq {b : UInt8} {n : Nat} (hb : isContinuation b = true)
    (hn : n % 64 = continuationBits b) : continuation n = b := by
  obtain ⟨hlow, hhigh⟩ : 0x80 ≤ b.toNat ∧ b.toNat < 0xc0 := between_iff.mp hb
  rw [continuationBits] at hn
  exact ofNat_eq_of_toNat (by omega)

theorem charFrom_eq_some {least code : Nat} {c : Char} (h : charFrom least code = some c) :
    least ≤ code ∧ c.toNat = code := by
  rw [charFrom] at h
  split at h
  · rename_i hcode
    cases h
    refine ⟨hcode.1, ?_⟩
    have hlt : code < 2 ^ 32 := by
      have hvalid := hcode.2
      rw [Nat.isValidChar] at hvalid
      omega
    exact UInt32.toNat_ofNat_of_lt' hlt
  · cases h

/-- The bytes of the first character are those that it is encoded by. -/
theorem eq_encodeChar_of_decodeFirst {bytes rest : List UInt8} {c : Char}
    (h : decodeFirst bytes = some (c, rest)) : bytes = String.utf8EncodeChar c ++ rest := by
  have hcode : c.val.toNat = c.toNat := rfl
  rw [decodeFirst.eq_def] at h
  rw [String.utf8EncodeChar, hcode]
  -- one case for each length; the bits of the bytes are those of the code
  split at h
  · cases h
  rename_i a r₁
  split at h
  · rename_i ha
    obtain ⟨d, hd, heq⟩ := Option.map_eq_some_iff.mp h
    cases heq
    obtain ⟨-, hd⟩ := charFrom_eq_some hd
    have ha : a.toNat < 0x80 := UInt8.lt_iff_toNat_lt.mp ha
    rw [if_pos (by omega), ofNat_eq_of_toNat hd]
    rfl
  split at h
  · cases h
  rename_i b r₂
  split at h
  · cases h
  rename_i hb
  have hb : isContinuation b = true := by simpa using hb
  split at h
  · rename_i htwo
    obtain ⟨hlow, hhigh⟩ : 0xc0 ≤ a.toNat ∧ a.toNat < 0xe0 := between_iff.mp htwo
    obtain ⟨d, hd, heq⟩ := Option.map_eq_some_iff.mp h
    cases heq
    obtain ⟨hleast, hd⟩ := charFrom_eq_some hd
    have hbits : continuationBits b < 64 := Nat.mod_lt _ (by decide)
    rw [if_neg (by omega), if_pos (by omega)]
    show _ = [UInt8.ofNat (c.toNat / 64 % 32 + 0xc0), continuation c.toNat] ++ rest
    rw [ofNat_eq_of_toNat (a := a) (by omega), continuation_eq hb (by omega)]
    rfl
  split at h
  · cases h
  rename_i e r₃
  split at h
  · cases h
  rename_i he
  have he : isContinuation e = true := by simpa using he
  split at h
  · rename_i hthree
    obtain ⟨hlow, hhigh⟩ : 0xe0 ≤ a.toNat ∧ a.toNat < 0xf0 := between_iff.mp hthree
    obtain ⟨d, hd, heq⟩ := Option.map_eq_some_iff.mp h
    cases heq
    obtain ⟨hleast, hd⟩ := charFrom_eq_some hd
    have hbits : continuationBits b < 64 := Nat.mod_lt _ (by decide)
    have hbits' : continuationBits e < 64 := Nat.mod_lt _ (by decide)
    rw [if_neg (by omega), if_neg (by omega), if_pos (by omega)]
    show _ = [UInt8.ofNat (c.toNat / 4096 % 16 + 0xe0), continuation (c.toNat / 64),
      continuation c.toNat] ++ rest
    rw [ofNat_eq_of_toNat (a := a) (by omega), continuation_eq hb (by omega),
      continuation_eq he (by omega)]
    rfl
  split at h
  · cases h
  rename_i f r₄
  split at h
  · cases h
  rename_i hf
  have hf : isContinuation f = true := by simpa using hf
  split at h
  · rename_i hfour
    obtain ⟨hlow, hhigh⟩ : 0xf0 ≤ a.toNat ∧ a.toNat < 0xf8 := between_iff.mp hfour
    obtain ⟨d, hd, heq⟩ := Option.map_eq_some_iff.mp h
    cases heq
    obtain ⟨hleast, hd⟩ := charFrom_eq_some hd
    have hbits : continuationBits b < 64 := Nat.mod_lt _ (by decide)
    have hbits' : continuationBits e < 64 := Nat.mod_lt _ (by decide)
    have hbits'' : continuationBits f < 64 := Nat.mod_lt _ (by decide)
    rw [if_neg (by omega), if_neg (by omega), if_neg (by omega)]
    show _ = [UInt8.ofNat (c.toNat / 262144 % 8 + 0xf0), continuation (c.toNat / 4096),
      continuation (c.toNat / 64), continuation c.toNat] ++ rest
    rw [ofNat_eq_of_toNat (a := a) (by omega), continuation_eq hb (by omega),
      continuation_eq he (by omega), continuation_eq hf (by omega)]
    rfl
  · cases h

theorem eq_encode_of_decodeOnto {n : Nat} {found chars : List Char} {bytes rest : List UInt8}
    (h : decodeOnto n found bytes = (chars, rest)) :
    ∃ cs, chars = found.reverse ++ cs ∧ bytes = cs.flatMap String.utf8EncodeChar ++ rest := by
  induction n generalizing found bytes with
  | zero =>
    cases h
    exact ⟨[], (List.append_nil _).symm, rfl⟩
  | succ n ih =>
    rw [decodeOnto] at h
    split at h
    · rename_i c more hfirst
      obtain ⟨cs, rfl, rfl⟩ := ih h
      refine ⟨c :: cs, ?_, ?_⟩
      · rw [List.reverse_cons, List.append_assoc]
        rfl
      · rw [eq_encodeChar_of_decodeFirst hfirst, List.flatMap_cons, List.append_assoc]
    · cases h
      exact ⟨[], (List.append_nil _).symm, rfl⟩

/-- Bytes are the text that they encode, and no others are. -/
theorem text?_eq_some_iff {bytes : List UInt8} {s : String} :
    text? bytes = some s ↔ bytes = encode s := by
  constructor
  · intro h
    rw [text?] at h
    split at h
    · rename_i chars hdecode
      cases h
      obtain ⟨cs, rfl, rfl⟩ := eq_encode_of_decodeOnto hdecode
      rw [List.append_nil, encode_ofList]
    · cases h
  · rintro rfl
    exact text?_encode s

end Utf8

end Storyboard
