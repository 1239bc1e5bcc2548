/-
Storyboard/Proofs/Json/Trees.lean

JSON texts as trees.

A `Tree` is a JSON text without its white space: every string and every number is kept
as it is spelled, and what a string means is computed from its spelling.  Spellings
carry their grammar, so every tree is one of JSON.

Which text a tree has is said as for values, by its tokens (`Tree.tokens`, `Spaced`).
While a text is being read only a part of it is known to be made of tokens, and
`Starts ts cs rest` says that: the characters `cs` begin with the tokens `ts`, and
`rest` follows them.
-/
import Storyboard.Proofs.Json.Reads

namespace Storyboard

namespace Json

/-! ### Strings as they are spelled -/

/-- The value of a hexadecimal digit of either case. -/
def hexDigitValue? (c : Char) : Option Nat :=
  if '0' ≤ c ∧ c ≤ '9' then some (c.toNat - '0'.toNat)
  else if 'a' ≤ c ∧ c ≤ 'f' then some (c.toNat - 'a'.toNat + 10)
  else if 'A' ≤ c ∧ c ≤ 'F' then some (c.toNat - 'A'.toNat + 10)
  else none

/-- A hexadecimal digit. -/
structure HexDigit where
  char : Char
  value : Nat
  value_eq : hexDigitValue? char = some value

/-- The letters that may follow a backslash, with what they stand for. -/
def letterEscapes : List (Char × Char) :=
  [('"', '"'), ('\\', '\\'), ('/', '/'), ('b', '\x08'), ('f', '\x0c'), ('n', '\n'), ('r', '\r'),
   ('t', '\t')]

/-- One part of a string between its quotes. -/
inductive Piece where
  /-- A character that stands for itself. -/
  | plain (c : Char) (h : c ≠ '"' ∧ c ≠ '\\' ∧ 0x20 ≤ c.toNat)
  /-- A backslash and a letter. -/
  | letter (e c : Char) (h : (e, c) ∈ letterEscapes)
  /-- A character by number. -/
  | code (a b c d : HexDigit)

/-- What stands between the quotes of a string. -/
abbrev Spelling := List Piece

/-- The number that four digits write. -/
def fourDigitNumber (a b c d : HexDigit) : Nat :=
  ((a.value * 16 + b.value) * 16 + c.value) * 16 + d.value

/-- The characters of a part. -/
def Piece.written : Piece → List Char
  | plain c _ => [c]
  | letter e _ _ => ['\\', e]
  | code a b c d => ['\\', 'u', a.char, b.char, c.char, d.char]

namespace Spelling

/-- The characters between the quotes. -/
def written (s : Spelling) : List Char := s.flatMap Piece.written

/-- The string with its quotes. -/
def quoted (s : Spelling) : String := String.ofList ('"' :: (s.written ++ ['"']))

/-- The characters that a string stands for, after half of a surrogate pair if there was
one.  Such a half alone stands for no character. -/
def charsAfter : Option Nat → Spelling → Option (List Char)
  | none, [] => some []
  | none, .plain c _ :: s => (charsAfter none s).map (c :: ·)
  | none, .letter _ c _ :: s => (charsAfter none s).map (c :: ·)
  | none, .code a b c d :: s =>
    if isLowSurrogate (fourDigitNumber a b c d) then none
    else if isHighSurrogate (fourDigitNumber a b c d) then
      charsAfter (some (fourDigitNumber a b c d)) s
    else (charsAfter none s).map (Char.ofNat (fourDigitNumber a b c d) :: ·)
  | some high, .code a b c d :: s =>
    if isLowSurrogate (fourDigitNumber a b c d) then
      (charsAfter none s).map (fromSurrogates high (fourDigitNumber a b c d) :: ·)
    else none
  | some _, _ => none

/-- The text that a string stands for. -/
def text? (s : Spelling) : Option String := (charsAfter none s).map String.ofList

theorem written_append (s t : Spelling) : written (s ++ t) = s.written ++ t.written :=
  List.flatMap_append

/-- What two strings stand for one after the other. -/
theorem charsAfter_append {half : Option Nat} {s t : Spelling} {cs ds : List Char}
    (hs : charsAfter half s = some cs) (ht : charsAfter none t = some ds) :
    charsAfter half (s ++ t) = some (cs ++ ds) := by
  induction s generalizing half cs with
  | nil =>
    cases half with
    | none =>
      cases hs
      exact ht
    | some high => cases hs
  | cons p s ih =>
    -- where a character comes first, the others are those of the rest
    have hmap {f : List Char → List Char} (hf : ∀ as bs, f (as ++ bs) = f as ++ bs)
        (h : (charsAfter none s).map f = some cs) :
        (charsAfter none (s ++ t)).map f = some (cs ++ ds) := by
      obtain ⟨as, has, rfl⟩ := Option.map_eq_some_iff.mp h
      rw [ih has, Option.map_some, hf]
    have hcons (c : Char) : ∀ as bs : List Char, c :: (as ++ bs) = c :: as ++ bs :=
      fun _ _ => rfl
    cases half with
    | none =>
      cases p with
      | plain c h => exact hmap (hcons c) hs
      | letter e c h => exact hmap (hcons c) hs
      | code a b c d =>
        rw [charsAfter] at hs
        rw [List.cons_append, charsAfter]
        split at hs
        · cases hs
        · rename_i hlow
          rw [if_neg hlow]
          split at hs
          · rename_i hhigh
            rw [if_pos hhigh]
            exact ih hs
          · rename_i hhigh
            rw [if_neg hhigh]
            exact hmap (hcons _) hs
    | some high =>
      cases p with
      | plain c h => cases hs
      | letter e c h => cases hs
      | code a b c d =>
        rw [charsAfter] at hs
        rw [List.cons_append, charsAfter]
        split at hs
        · rename_i hlow
          rw [if_pos hlow]
          exact hmap (hcons _) hs
        · cases hs

end Spelling

/-! ### Numbers as they are spelled -/

/-- The digits before the point: none of them is a zero in front of others. -/
def WholePart (cs : List Char) : Prop :=
  cs = ['0'] ∨ ∃ c ds, cs = c :: ds ∧ c ≠ '0' ∧ Digits (c :: ds)

/-- A point with digits after it, or nothing. -/
def FractionPart (cs : List Char) : Prop :=
  cs = [] ∨ ∃ ds, cs = '.' :: ds ∧ ds ≠ [] ∧ Digits ds

/-- An exponent with or without a sign, or nothing. -/
def ExponentPart (cs : List Char) : Prop :=
  cs = [] ∨ ∃ mark sign ds, cs = mark :: (sign ++ ds) ∧ (mark = 'e' ∨ mark = 'E') ∧
    (sign = [] ∨ sign = ['+'] ∨ sign = ['-']) ∧ ds ≠ [] ∧ Digits ds

/-- A number of JSON after its sign. -/
def Unsigned (cs : List Char) : Prop :=
  ∃ whole fraction exponent, cs = whole ++ (fraction ++ exponent) ∧ WholePart whole ∧
    FractionPart fraction ∧ ExponentPart exponent

/-- A number of JSON. -/
structure Numeral where
  chars : List Char
  grammar : Unsigned chars ∨ ∃ cs, chars = '-' :: cs ∧ Unsigned cs

/-! ### Trees -/

/-- A JSON value as it is spelled. -/
inductive Tree where
  | null
  | boolean (b : Bool)
  | number (n : Numeral)
  | text (s : Spelling)
  | list (items : List Tree)
  | object (members : List (Spelling × Tree))

namespace Tree

mutual

/-- The tokens of a tree. -/
def tokens : Tree → List Token
  | null => [.word "null"]
  | boolean b => [.word (toString b)]
  | number n => [.word (String.ofList n.chars)]
  | text s => [.word s.quoted]
  | list items => .openList :: (commaSeparated (itemTokens items) ++ [.closeList])
  | object members => .openObject :: (commaSeparated (memberTokens members) ++ [.closeObject])

/-- The tokens of each item of a list. -/
def itemTokens : List Tree → List (List Token)
  | [] => []
  | item :: rest => item.tokens :: itemTokens rest

/-- The tokens of each member of an object. -/
def memberTokens : List (Spelling × Tree) → List (List Token)
  | [] => []
  | (name, value) :: rest => (.word name.quoted :: .colon :: value.tokens) :: memberTokens rest

end

/-- The tokens of a member. -/
def memberToken (m : Spelling × Tree) : List Token := .word m.1.quoted :: .colon :: m.2.tokens

theorem itemTokens_eq_map (items : List Tree) : itemTokens items = items.map tokens := by
  induction items with
  | nil => rw [itemTokens, List.map_nil]
  | cons item items ih => rw [itemTokens, ih, List.map_cons]

theorem memberTokens_eq_map (members : List (Spelling × Tree)) :
    memberTokens members = members.map memberToken := by
  induction members with
  | nil => rw [memberTokens, List.map_nil]
  | cons m members ih =>
    obtain ⟨name, value⟩ := m
    rw [memberTokens, ih, List.map_cons, memberToken]

end Tree

/-- What comes before an item: a comma, unless it is the first. -/
def separation (first : Bool) : List Token := if first then [] else [.comma]

/-- One more item at the end. -/
theorem commaSeparated_concat (items : List (List Token)) (item : List Token) :
    commaSeparated (items ++ [item]) =
      commaSeparated items ++ (separation items.isEmpty ++ item) := by
  cases items with
  | nil => rfl
  | cons first items =>
    rw [List.cons_append, commaSeparated_cons, commaSeparated_cons, laterItems, laterItems,
      List.flatMap_append, List.flatMap_singleton, List.append_assoc]
    rfl

/-! ### Texts that start with some tokens -/

variable {ts us : List Token} {cs mid rest : List Char}

theorem Spaced.blanks_append {blanks text : String} (hblanks : BlankText blanks)
    (h : Spaced ts text) : Spaced ts (blanks ++ text) := by
  have hboth {more : String} (hmore : BlankText more) : BlankText (blanks ++ more) := by
    intro c hc
    rw [String.toList_append, List.mem_append] at hc
    exact hc.elim (hblanks c) (hmore c)
  cases h with
  | done hmore => exact .done (hboth hmore)
  | token hmore h =>
    rw [← String.append_assoc, ← String.append_assoc]
    exact .token (hboth hmore) h

theorem Spaced.append {first second : String} (hfirst : Spaced ts first)
    (hsecond : Spaced us second) : Spaced (ts ++ us) (first ++ second) := by
  induction hfirst with
  | done hblanks => exact hsecond.blanks_append hblanks
  | token hblanks _ ih =>
    rw [String.append_assoc]
    exact .token hblanks ih

/-- The characters start with these tokens, and `rest` follows. -/
def Starts (ts : List Token) (cs rest : List Char) : Prop :=
  ∃ front, cs = front ++ rest ∧ Spaced ts (String.ofList front)

namespace Starts

/-- White space before what follows. -/
theorem blanks {front : List Char} (h : BlankText (String.ofList front)) (rest : List Char) :
    Starts [] (front ++ rest) rest :=
  ⟨front, rfl, .done h⟩

theorem refl (cs : List Char) : Starts [] cs cs := blanks blankText_empty cs

/-- A token without white space. -/
theorem token (t : Token) (rest : List Char) : Starts [t] (t.written.toList ++ rest) rest := by
  refine ⟨t.written.toList, rfl, ?_⟩
  have h : Spaced [t] ("" ++ t.written ++ "") := .token blankText_empty (.done blankText_empty)
  rw [String.empty_append, String.append_empty] at h
  rw [String.ofList_toList]
  exact h

theorem trans (hfirst : Starts ts cs mid) (hsecond : Starts us mid rest) :
    Starts (ts ++ us) cs rest := by
  obtain ⟨front, rfl, hfront⟩ := hfirst
  obtain ⟨back, rfl, hback⟩ := hsecond
  refine ⟨front ++ back, (List.append_assoc _ _ _).symm, ?_⟩
  rw [String.ofList_append]
  exact hfront.append hback

/-- A token of one character, after white space. -/
theorem char {t : Token} {c : Char} (h : Starts [] cs mid) (hmid : mid = c :: rest)
    (ht : t.written.toList = [c]) : Starts [t] cs rest := by
  have htoken := token t rest
  rw [ht] at htoken
  rw [hmid] at h
  exact h.trans htoken

/-- A word, after white space. -/
theorem word {w : String} (h : Starts [] cs mid) (hmid : mid = w.toList ++ rest) :
    Starts [.word w] cs rest := by
  have htoken := token (.word w) rest
  rw [hmid] at h
  exact h.trans htoken

/-- The text has nothing but white space after the tokens. -/
theorem spaced {text : String} (h : Starts ts text.toList []) : Spaced ts text := by
  obtain ⟨front, hfront, h⟩ := h
  rw [List.append_nil] at hfront
  rw [← hfront, String.ofList_toList] at h
  exact h

end Starts

end Json

end Storyboard
