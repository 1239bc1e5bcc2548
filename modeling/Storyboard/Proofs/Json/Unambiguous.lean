/-
Storyboard/Proofs/Json/Unambiguous.lean

A text writes one tree at most.

White space before and after a tree is all that two readings of a text can differ in, so
texts are compared without the white space in front of them (`stripped`).  The first
character tells of what kind a tree is.  A string ends at the first quote that no
backslash stands before, a word at the first character that no word has, and in an
object or list a comma or the closing bracket says after each item whether another one
follows.

Main result: `Tree.eq_of_spaced`.
-/
import Storyboard.Proofs.Json.Trees

namespace Storyboard

namespace Json

/-! ### Spellings -/

theorem HexDigit.ext_char {a b : HexDigit} (h : a.char = b.char) : a = b := by
  obtain ⟨c, m, hm⟩ := a
  obtain ⟨d, n, hn⟩ := b
  obtain rfl : c = d := h
  rw [hm] at hn
  obtain rfl := Option.some.inj hn
  rfl

theorem letterEscapes_unique :
    ∀ p ∈ letterEscapes, p.1 ≠ 'u' ∧ ∀ q ∈ letterEscapes, p.1 = q.1 → p.2 = q.2 := by
  decide

/-- A part of a string is known by its characters. -/
theorem Piece.eq_of_written {p q : Piece} {xs ys : List Char}
    (h : p.written ++ xs = q.written ++ ys) : p = q ∧ xs = ys := by
  cases p with
  | plain c hc =>
    cases q with
    | plain d hd =>
      obtain ⟨rfl, rfl⟩ := List.cons.inj h
      exact ⟨rfl, rfl⟩
    | letter e d hd => exact absurd (List.cons.inj h).1 hc.2.1
    | code a b c d => exact absurd (List.cons.inj h).1 hc.2.1
  | letter e c hc =>
    cases q with
    | plain d hd => exact absurd (List.cons.inj h).1.symm hd.2.1
    | letter f d hd =>
      obtain ⟨rfl, rfl⟩ := List.cons.inj (List.cons.inj h).2
      obtain rfl := (letterEscapes_unique _ hc).2 _ hd rfl
      exact ⟨rfl, rfl⟩
    | code a b c d =>
      obtain ⟨rfl, -⟩ := List.cons.inj (List.cons.inj h).2
      exact absurd rfl (letterEscapes_unique _ hc).1
  | code a b c d =>
    cases q with
    | plain d hd => exact absurd (List.cons.inj h).1.symm hd.2.1
    | letter f d hd =>
      obtain ⟨rfl, -⟩ := List.cons.inj (List.cons.inj h).2
      exact absurd rfl (letterEscapes_unique _ hd).1
    | code a' b' c' d' =>
      simp only [written, List.cons_append, List.cons.injEq, true_and, List.nil_append] at h
      obtain ⟨ha, hb, hc, hd, rfl⟩ := h
      rw [HexDigit.ext_char ha, HexDigit.ext_char hb, HexDigit.ext_char hc, HexDigit.ext_char hd]
      exact ⟨rfl, rfl⟩

/-- No part of a string begins with the closing quote. -/
theorem Piece.ne_quote (p : Piece) (xs ys : List Char) : p.written ++ xs ≠ '"' :: ys := by
  intro h
  cases p with
  | plain c hc => exact hc.1 (List.cons.inj h).1
  | letter e c hc => exact absurd (List.cons.inj h).1 (by decide)
  | code a b c d => exact absurd (List.cons.inj h).1 (by decide)

/-- A string is known by its characters up to the closing quote. -/
theorem Spelling.eq_of_written {s t : Spelling} {xs ys : List Char}
    (h : s.written ++ '"' :: xs = t.written ++ '"' :: ys) : s = t ∧ xs = ys := by
  induction s generalizing t with
  | nil =>
    cases t with
    | nil => exact ⟨rfl, (List.cons.inj h).2⟩
    | cons q t =>
      rw [written, written, List.flatMap_cons, List.append_assoc] at h
      exact absurd h.symm (q.ne_quote _ _)
  | cons p s ih =>
    cases t with
    | nil =>
      rw [written, written, List.flatMap_cons, List.append_assoc] at h
      exact absurd h (p.ne_quote _ _)
    | cons q t =>
      rw [written, written, List.flatMap_cons, List.flatMap_cons, List.append_assoc,
        List.append_assoc] at h
      obtain ⟨rfl, hrest⟩ := Piece.eq_of_written h
      obtain ⟨rfl, hxs⟩ := ih hrest
      exact ⟨rfl, hxs⟩

/-! ### White space and words -/

/-- White space. -/
def isSpace (c : Char) : Bool := c == ' ' || c == '\n' || c == '\t' || c == '\r'

/-- A character of numbers and of the three words. -/
def isWordChar (c : Char) : Bool := c.isAlphanum || c == '+' || c == '-' || c == '.'

/-- The text without white space in front of it. -/
def stripped (cs : List Char) : List Char := cs.dropWhile isSpace

/-- No word goes on with these characters. -/
def EndsWord (cs : List Char) : Prop := ∀ c, cs.head? = some c → isWordChar c = false

variable {t : Token} {ts us : List Token} {cs ds rest r₁ r₂ : List Char}

theorem isSpace_of_blankText {front : List Char} (h : BlankText (String.ofList front)) :
    ∀ c ∈ front, isSpace c = true := by
  intro c hc
  obtain rfl | rfl | rfl | rfl := h c (by rw [String.toList_ofList]; exact hc) <;> rfl

theorem stripped_append {front : List Char} (h : BlankText (String.ofList front))
    (rest : List Char) : stripped (front ++ rest) = stripped rest :=
  List.dropWhile_append_of_pos (isSpace_of_blankText h)

theorem stripped_of_head {c : Char} (h : isSpace c = false) (rest : List Char) :
    stripped (c :: rest) = c :: rest :=
  List.dropWhile_cons_of_neg (by rw [h]; decide)

/-- White space is in no word. -/
theorem isWordChar_of_isSpace {c : Char} (h : isSpace c = true) : isWordChar c = false := by
  simp only [isSpace, Bool.or_eq_true, beq_iff_eq, or_assoc] at h
  obtain rfl | rfl | rfl | rfl := h <;> decide

/-- White space ends a word, too. -/
theorem EndsWord.blanks_append {front : List Char} (hfront : BlankText (String.ofList front))
    (h : EndsWord cs) : EndsWord (front ++ cs) := by
  cases front with
  | nil => exact h
  | cons d front =>
    intro e he
    rw [← Option.some.inj he]
    exact isWordChar_of_isSpace (isSpace_of_blankText hfront d List.mem_cons_self)

/-! ### What a text starts with -/

theorem Starts.blanks_eq (h : Starts [] cs rest) :
    ∃ front, cs = front ++ rest ∧ BlankText (String.ofList front) := by
  obtain ⟨front, rfl, h⟩ := h
  generalize hs : String.ofList front = s at h
  cases h with
  | done hblanks => exact ⟨front, rfl, hs ▸ hblanks⟩

theorem Starts.stripped_eq (h : Starts [] cs rest) : stripped cs = stripped rest := by
  obtain ⟨front, rfl, hfront⟩ := h.blanks_eq
  exact stripped_append hfront rest

/-- The first token, after white space, and the others. -/
theorem Starts.token_eq (h : Starts (t :: ts) cs rest) :
    ∃ front mid, cs = front ++ (t.written.toList ++ mid) ∧ BlankText (String.ofList front) ∧
      Starts ts mid rest := by
  obtain ⟨chars, rfl, h⟩ := h
  generalize hs : String.ofList chars = s at h
  cases h with
  | @token _ _ blanks more hblanks hmore =>
    have hchars : chars = blanks.toList ++ (t.written.toList ++ more.toList) := by
      rw [← String.toList_ofList (l := chars), hs, String.toList_append, String.toList_append,
        List.append_assoc]
    refine ⟨blanks.toList, more.toList ++ rest, ?_, ?_, more.toList, rfl, ?_⟩
    · rw [hchars]
      simp only [List.append_assoc]
    · rw [String.ofList_toList]
      exact hblanks
    · rw [String.ofList_toList]
      exact hmore

/-- Tokens in two parts. -/
theorem Starts.split (h : Starts (ts ++ us) cs rest) :
    ∃ mid, Starts ts cs mid ∧ Starts us mid rest := by
  induction ts generalizing cs with
  | nil => exact ⟨cs, .refl cs, h⟩
  | cons t ts ih =>
    obtain ⟨front, next, rfl, hfront, h⟩ := Starts.token_eq h
    obtain ⟨mid, hts, hus⟩ := ih h
    exact ⟨mid, ((Starts.blanks hfront _).trans (Starts.token t next)).trans hts, hus⟩

/-- The first token, by its first character. -/
theorem Starts.first {c : Char} {more : List Char} (h : Starts (t :: ts) cs rest)
    (ht : t.written.toList = c :: more) (hc : isSpace c = false) :
    ∃ mid, stripped cs = t.written.toList ++ mid ∧ Starts ts mid rest := by
  obtain ⟨front, mid, rfl, hfront, h⟩ := h.token_eq
  refine ⟨mid, ?_, h⟩
  rw [stripped_append hfront, ht]
  exact stripped_of_head hc _

/-- A first token that is no word ends the word before it. -/
theorem Starts.endsWord {c : Char} {more : List Char} (h : Starts (t :: ts) cs rest)
    (ht : t.written.toList = c :: more) (hc : isWordChar c = false) : EndsWord cs := by
  obtain ⟨front, mid, rfl, hfront, -⟩ := h.token_eq
  refine EndsWord.blanks_append hfront ?_
  rw [ht]
  intro d hd
  rw [← Option.some.inj hd]
  exact hc

/-! ### Items -/

/-- Whatever stands in the place of `a` is `a`. -/
def Determined {ι : Type} (f : ι → List Token) (a : ι) : Prop :=
  ∀ b cs ds r₁ r₂, stripped cs = stripped ds → Starts (f a) cs r₁ → Starts (f b) ds r₂ →
    EndsWord r₁ → EndsWord r₂ → a = b ∧ stripped r₁ = stripped r₂

/-- The token closes a list or an object. -/
structure Closes (t : Token) (c : Char) : Prop where
  written : t.written.toList = [c]
  space : isSpace c = false
  word : isWordChar c = false
  comma : c ≠ ','

theorem closes_list : Closes .closeList ']' := ⟨rfl, rfl, by decide, by decide⟩

theorem closes_object : Closes .closeObject '}' := ⟨rfl, rfl, by decide, by decide⟩

section Items

variable {ι : Type} {f : ι → List Token} {close : Token} {c : Char}

theorem Closes.endsWord (hclose : Closes close c) {items : List (List Token)}
    (h : Starts (laterItems items ++ [close]) cs rest) : EndsWord cs := by
  cases items with
  | nil => exact Starts.endsWord h hclose.written hclose.word
  | cons item items => exact Starts.endsWord h (c := ',') rfl (by decide)

theorem Closes.nothingLater (hclose : Closes close c) (h : Starts [close] cs rest) :
    stripped cs = c :: (stripped cs).tail ∧ stripped (stripped cs).tail = stripped rest := by
  obtain ⟨mid, hmid, hrest⟩ := h.first hclose.written hclose.space
  rw [hmid, hclose.written]
  exact ⟨rfl, hrest.stripped_eq⟩

/-- The items after the first, up to the closing bracket. -/
theorem Closes.laterItems_unique (hclose : Closes close c) {as bs : List ι}
    (has : ∀ a ∈ as, Determined f a) (hcs : stripped cs = stripped ds)
    (h₁ : Starts (laterItems (as.map f) ++ [close]) cs r₁)
    (h₂ : Starts (laterItems (bs.map f) ++ [close]) ds r₂) :
    as = bs ∧ stripped r₁ = stripped r₂ := by
  induction as generalizing bs cs ds with
  | nil =>
    obtain ⟨hcs₁, hr₁⟩ := hclose.nothingLater h₁
    cases bs with
    | nil =>
      obtain ⟨-, hr₂⟩ := hclose.nothingLater h₂
      rw [hcs] at hr₁
      exact ⟨rfl, hr₁.symm.trans hr₂⟩
    | cons b bs =>
      obtain ⟨mid, hmid, -⟩ := Starts.first h₂ (c := ',') rfl rfl
      rw [← hcs, hcs₁] at hmid
      exact absurd (List.cons.inj hmid).1 hclose.comma
  | cons a as ih =>
    rw [List.map_cons, laterItems, List.flatMap_cons, List.append_assoc] at h₁
    obtain ⟨m₁, hm₁, hitems₁⟩ := Starts.first h₁ (c := ',') rfl rfl
    cases bs with
    | nil =>
      obtain ⟨hcs₂, -⟩ := hclose.nothingLater h₂
      rw [← hcs, hm₁] at hcs₂
      exact absurd (List.cons.inj hcs₂).1.symm hclose.comma
    | cons b bs =>
      rw [List.map_cons, laterItems, List.flatMap_cons, List.append_assoc] at h₂
      obtain ⟨m₂, hm₂, hitems₂⟩ := Starts.first h₂ (c := ',') rfl rfl
      obtain rfl : m₁ = m₂ := by
        rw [hcs, hm₂] at hm₁
        exact (List.cons.inj hm₁).2.symm
      -- the item, and what comes after it
      obtain ⟨n₁, ha, hlater₁⟩ := Starts.split hitems₁
      obtain ⟨n₂, hb, hlater₂⟩ := Starts.split hitems₂
      obtain ⟨hab, hn⟩ := has a List.mem_cons_self b m₁ m₁ n₁ n₂ rfl ha hb
        (hclose.endsWord hlater₁) (hclose.endsWord hlater₂)
      obtain ⟨hasbs, hr⟩ := ih (fun a ha => has a (List.mem_cons_of_mem _ ha)) hn hlater₁ hlater₂
      exact ⟨by rw [hab, hasbs], hr⟩

/-- All items, up to the closing bracket. -/
theorem Closes.items_unique (hclose : Closes close c) {as bs : List ι}
    (has : ∀ a ∈ as, Determined f a)
    (hfirst : ∀ a, ∃ t ts d more, f a = t :: ts ∧ t.written.toList = d :: more ∧
      isSpace d = false ∧ d ≠ c)
    (hcs : stripped cs = stripped ds)
    (h₁ : Starts (commaSeparated (as.map f) ++ [close]) cs r₁)
    (h₂ : Starts (commaSeparated (bs.map f) ++ [close]) ds r₂) :
    as = bs ∧ stripped r₁ = stripped r₂ := by
  -- an item does not begin as the bracket does
  have hne {cs : List Char} {rest : List Char} (b : ι) (bs : List ι) {more : List Char}
      (h : Starts (commaSeparated ((b :: bs).map f) ++ [close]) cs rest) :
      stripped cs ≠ c :: more := by
    obtain ⟨t, ts, d, chars, hb, ht, hd, hdc⟩ := hfirst b
    rw [List.map_cons, commaSeparated_cons, hb] at h
    obtain ⟨mid, hmid, -⟩ := Starts.first h ht hd
    rw [hmid, ht]
    exact fun heq => hdc (List.cons.inj heq).1
  cases as with
  | nil =>
    cases bs with
    | nil => exact hclose.laterItems_unique has hcs h₁ h₂
    | cons b bs =>
      obtain ⟨hcs₁, -⟩ := hclose.nothingLater h₁
      exact absurd (hcs.symm.trans hcs₁) (hne b bs h₂)
  | cons a as =>
    cases bs with
    | nil =>
      obtain ⟨hcs₂, -⟩ := hclose.nothingLater h₂
      exact absurd (hcs.trans hcs₂) (hne a as h₁)
    | cons b bs =>
      rw [List.map_cons, commaSeparated_cons, List.append_assoc] at h₁ h₂
      obtain ⟨n₁, ha, hlater₁⟩ := Starts.split h₁
      obtain ⟨n₂, hb, hlater₂⟩ := Starts.split h₂
      obtain ⟨hab, hn⟩ := has a List.mem_cons_self b cs ds n₁ n₂ hcs ha hb
        (hclose.endsWord hlater₁) (hclose.endsWord hlater₂)
      obtain ⟨hasbs, hr⟩ := hclose.laterItems_unique
        (fun a ha => has a (List.mem_cons_of_mem _ ha)) hn hlater₁ hlater₂
      exact ⟨by rw [hab, hasbs], hr⟩

end Items

/-! ### Words and strings -/

/-- The characters are those of a word. -/
def WordChars (cs : List Char) : Prop := cs ≠ [] ∧ ∀ c ∈ cs, isWordChar c = true

instance (cs : List Char) : Decidable (WordChars cs) :=
  decidable_of_iff (cs ≠ [] ∧ cs.all isWordChar = true) (by rw [List.all_eq_true, WordChars])

theorem isSpace_of_isWordChar {c : Char} (h : isWordChar c = true) : isSpace c = false := by
  cases hc : isSpace c with
  | false => rfl
  | true =>
    rw [isWordChar_of_isSpace hc] at h
    cases h

/-- A word ends where it can go on no more. -/
theorem word_takeWhile {w : String} (hw : WordChars w.toList) (h : Starts [.word w] cs rest)
    (hrest : EndsWord rest) :
    w.toList = (stripped cs).takeWhile isWordChar ∧
      stripped ((stripped cs).dropWhile isWordChar) = stripped rest := by
  obtain ⟨c, more, hcs⟩ := List.exists_cons_of_ne_nil hw.1
  have hc : isSpace c = false :=
    isSpace_of_isWordChar (hw.2 c (by rw [hcs]; exact List.mem_cons_self))
  obtain ⟨mid, hmid, h⟩ := h.first (t := .word w) hcs hc
  obtain ⟨front, rfl, hfront⟩ := h.blanks_eq
  have hends : EndsWord (front ++ rest) := hrest.blanks_append hfront
  have hstop : (front ++ rest).takeWhile isWordChar = [] ∧
      (front ++ rest).dropWhile isWordChar = front ++ rest := by
    cases hchars : front ++ rest with
    | nil => exact ⟨rfl, rfl⟩
    | cons d chars =>
      have hd : ¬ isWordChar d = true := by
        rw [hends d (by rw [hchars]; rfl)]
        decide
      exact ⟨List.takeWhile_cons_of_neg hd, List.dropWhile_cons_of_neg hd⟩
  rw [hmid, Token.written, List.takeWhile_append_of_pos hw.2, List.dropWhile_append_of_pos hw.2,
    hstop.1, hstop.2, List.append_nil]
  exact ⟨rfl, stripped_append hfront rest⟩

theorem word_unique {x y : String} (hx : WordChars x.toList) (hy : WordChars y.toList)
    (hcs : stripped cs = stripped ds) (h₁ : Starts [.word x] cs r₁) (h₂ : Starts [.word y] ds r₂)
    (hr₁ : EndsWord r₁) (hr₂ : EndsWord r₂) : x = y ∧ stripped r₁ = stripped r₂ := by
  obtain ⟨hx, hrest₁⟩ := word_takeWhile hx h₁ hr₁
  obtain ⟨hy, hrest₂⟩ := word_takeWhile hy h₂ hr₂
  rw [hcs] at hx hrest₁
  exact ⟨String.toList_inj.mp (hx.trans hy.symm), hrest₁.symm.trans hrest₂⟩

theorem toList_quoted (s : Spelling) :
    (Token.word s.quoted).written.toList = '"' :: (s.written ++ ['"']) := String.toList_ofList

/-- A string, and what comes after it. -/
theorem quoted_unique {s s' : Spelling} (hcs : stripped cs = stripped ds)
    (h₁ : Starts (.word s.quoted :: ts) cs r₁) (h₂ : Starts (.word s'.quoted :: us) ds r₂) :
    s = s' ∧ ∃ mid, Starts ts mid r₁ ∧ Starts us mid r₂ := by
  obtain ⟨m₁, hm₁, h₁⟩ := h₁.first (toList_quoted s) rfl
  obtain ⟨m₂, hm₂, h₂⟩ := h₂.first (toList_quoted s') rfl
  rw [hcs, hm₂, toList_quoted, toList_quoted, List.cons_append, List.cons_append,
    List.append_assoc, List.append_assoc] at hm₁
  obtain ⟨rfl, rfl⟩ := Spelling.eq_of_written (List.cons.inj hm₁).2.symm
  exact ⟨rfl, m₁, h₁, h₂⟩

theorem isWordChar_of_isDigit {c : Char} (h : c.isDigit = true) : isWordChar c = true := by
  rw [isWordChar, Char.isAlphanum, h, Bool.or_true]
  rfl

theorem wordChars_unsigned {cs : List Char} (h : Unsigned cs) :
    (∀ c ∈ cs, isWordChar c = true) ∧ ∃ c more, cs = c :: more ∧ c.isDigit = true := by
  have hdigits {ds : List Char} (hds : Digits ds) : ∀ c ∈ ds, isWordChar c = true :=
    fun c hc => isWordChar_of_isDigit (hds c hc)
  have happend {xs ys : List Char} (hxs : ∀ c ∈ xs, isWordChar c = true)
      (hys : ∀ c ∈ ys, isWordChar c = true) : ∀ c ∈ xs ++ ys, isWordChar c = true :=
    fun c hc => (List.mem_append.mp hc).elim (hxs c) (hys c)
  obtain ⟨whole, fraction, exponent, rfl, hwhole, hfraction, hexponent⟩ := h
  constructor
  · refine happend ?_ (happend ?_ ?_)
    · obtain rfl | ⟨c, ds, rfl, -, hds⟩ := hwhole
      · exact List.forall_mem_singleton.mpr (by decide)
      · exact hdigits hds
    · obtain rfl | ⟨ds, rfl, -, hds⟩ := hfraction
      · exact fun c hc => absurd hc List.not_mem_nil
      · exact List.forall_mem_cons.mpr ⟨by decide, hdigits hds⟩
    · obtain rfl | ⟨mark, sign, ds, rfl, hmark, hsign, -, hds⟩ := hexponent
      · exact fun c hc => absurd hc List.not_mem_nil
      · refine List.forall_mem_cons.mpr ⟨?_, happend ?_ (hdigits hds)⟩
        · obtain rfl | rfl := hmark <;> decide
        · obtain rfl | rfl | rfl := hsign
          · exact fun c hc => absurd hc List.not_mem_nil
          · exact List.forall_mem_singleton.mpr (by decide)
          · exact List.forall_mem_singleton.mpr (by decide)
  · obtain rfl | ⟨c, ds, rfl, -, hds⟩ := hwhole
    · exact ⟨'0', _, rfl, rfl⟩
    · exact ⟨c, _, rfl, hds c List.mem_cons_self⟩

/-! ### Trees -/

/-- The kinds of trees that the first character tells apart. -/
inductive Kind where
  | null
  | boolean
  | number
  | text
  | list
  | object

/-- The kind of the tree that begins with a character. -/
def Kind.of? (c : Char) : Option Kind :=
  if c = 'n' then some null
  else if c = 't' ∨ c = 'f' then some boolean
  else if c = '-' ∨ c.isDigit then some number
  else if c = '"' then some text
  else if c = '[' then some list
  else if c = '{' then some object
  else none

/-- The kind of a tree. -/
def Tree.kind : Tree → Kind
  | null => .null
  | boolean _ => .boolean
  | number _ => .number
  | text _ => .text
  | list _ => .list
  | object _ => .object

theorem Kind.of?_isDigit {c : Char} (h : c.isDigit = true) : Kind.of? c = some .number := by
  have hne {d : Char} (hd : d.isDigit = false) : c ≠ d := by
    rintro rfl
    rw [h] at hd
    cases hd
  rw [of?, if_neg (hne rfl), if_neg (not_or.mpr ⟨hne rfl, hne rfl⟩), if_pos (.inr h)]

theorem Kind.isSpace_of_of? {c : Char} {k : Kind} (h : Kind.of? c = some k) :
    isSpace c = false := by
  cases hc : isSpace c with
  | false => rfl
  | true =>
    simp only [isSpace, Bool.or_eq_true, beq_iff_eq, or_assoc] at hc
    obtain rfl | rfl | rfl | rfl := hc <;> cases h

theorem Numeral.first (n : Numeral) :
    ∃ c more, n.chars = c :: more ∧ Kind.of? c = some .number := by
  obtain h | ⟨cs, hcs, -⟩ := n.grammar
  · obtain ⟨-, c, more, hc, hdigit⟩ := wordChars_unsigned h
    exact ⟨c, more, hc, Kind.of?_isDigit hdigit⟩
  · exact ⟨'-', cs, hcs, rfl⟩

theorem Numeral.wordChars (n : Numeral) : WordChars n.chars := by
  obtain ⟨c, more, hc, -⟩ := n.first
  refine ⟨by rw [hc]; exact List.cons_ne_nil c more, ?_⟩
  obtain h | ⟨cs, hcs, h⟩ := n.grammar
  · exact (wordChars_unsigned h).1
  · rw [hcs]
    exact List.forall_mem_cons.mpr ⟨by decide, (wordChars_unsigned h).1⟩

theorem Numeral.ext_chars {m n : Numeral} (h : m.chars = n.chars) : m = n := by
  obtain ⟨cs, hcs⟩ := m
  obtain ⟨ds, hds⟩ := n
  obtain rfl : cs = ds := h
  rfl

namespace Tree

/-- Induction over a tree: of a list and of an object it holds if it does of the parts. -/
@[elab_as_elim]
theorem parts {P : Tree → Prop} (null : P null) (boolean : ∀ b, P (boolean b))
    (number : ∀ n, P (number n)) (text : ∀ s, P (text s))
    (list : ∀ items, (∀ item ∈ items, P item) → P (list items))
    (object : ∀ members, (∀ m ∈ members, P m.2) → P (object members)) : ∀ v, P v
  | .null => null
  | .boolean b => boolean b
  | .number n => number n
  | .text s => text s
  | .list items => list items fun item _ => parts null boolean number text list object item
  | .object members =>
    object members fun m _ => parts null boolean number text list object m.2
termination_by v => sizeOf v
decreasing_by
  · rename_i h
    have hlt := List.sizeOf_lt_of_mem h
    simp only [Tree.list.sizeOf_spec]
    omega
  · rename_i h
    have hlt := List.sizeOf_lt_of_mem h
    have hpair : sizeOf m.2 < sizeOf m := by
      cases m
      simp only [Prod.mk.sizeOf_spec]
      omega
    simp only [Tree.object.sizeOf_spec]
    omega

/-- The first character of a tree. -/
theorem exists_first (v : Tree) : ∃ t ts c more, v.tokens = t :: ts ∧
    t.written.toList = c :: more ∧ Kind.of? c = some v.kind := by
  cases v with
  | null =>
    rw [tokens]
    exact ⟨_, _, 'n', ['u', 'l', 'l'], rfl, rfl, rfl⟩
  | boolean b =>
    rw [tokens]
    cases b with
    | true => exact ⟨_, _, 't', ['r', 'u', 'e'], rfl, rfl, rfl⟩
    | false => exact ⟨_, _, 'f', ['a', 'l', 's', 'e'], rfl, rfl, rfl⟩
  | number n =>
    obtain ⟨c, more, hc, hkind⟩ := n.first
    rw [tokens]
    exact ⟨_, _, c, more, rfl, by rw [Token.written, String.toList_ofList, hc], hkind⟩
  | text s =>
    rw [tokens]
    exact ⟨_, _, '"', _, rfl, toList_quoted s, rfl⟩
  | list items =>
    rw [tokens]
    exact ⟨_, _, '[', [], rfl, rfl, rfl⟩
  | object members =>
    rw [tokens]
    exact ⟨_, _, '{', [], rfl, rfl, rfl⟩

theorem kind_eq {v w : Tree} (hcs : stripped cs = stripped ds) (h₁ : Starts v.tokens cs r₁)
    (h₂ : Starts w.tokens ds r₂) : v.kind = w.kind := by
  obtain ⟨t, ts, c, more, hv, ht, hc⟩ := v.exists_first
  obtain ⟨u, us, d, more', hw, hu, hd⟩ := w.exists_first
  rw [hv] at h₁
  rw [hw] at h₂
  obtain ⟨m₁, hm₁, -⟩ := h₁.first ht (Kind.isSpace_of_of? hc)
  obtain ⟨m₂, hm₂, -⟩ := h₂.first hu (Kind.isSpace_of_of? hd)
  rw [hcs, hm₂, ht, hu] at hm₁
  obtain rfl := (List.cons.inj hm₁).1
  exact Option.some.inj (hc.symm.trans hd)

/-- The tokens of a member, given that its value is determined. -/
theorem determined_member {m : Spelling × Tree} (h : Determined tokens m.2) :
    Determined memberToken m := by
  intro m' cs ds r₁ r₂ hcs h₁ h₂ hr₁ hr₂
  obtain ⟨s, v⟩ := m
  obtain ⟨s', w⟩ := m'
  obtain ⟨rfl, mid, h₁, h₂⟩ := quoted_unique hcs h₁ h₂
  obtain ⟨m₁, hm₁, h₁⟩ := Starts.first h₁ (c := ':') rfl rfl
  obtain ⟨m₂, hm₂, h₂⟩ := Starts.first h₂ (c := ':') rfl rfl
  obtain rfl : m₁ = m₂ := (List.cons.inj (hm₁.symm.trans hm₂)).2
  obtain ⟨rfl, hr⟩ := h w m₁ m₁ r₁ r₂ rfl h₁ h₂ hr₁ hr₂
  exact ⟨rfl, hr⟩

/-- A tree is determined by its text. -/
theorem determined (v : Tree) : Determined tokens v := by
  induction v using parts with
  | null =>
    intro w cs ds r₁ r₂ hcs h₁ h₂ hr₁ hr₂
    have hkind := kind_eq hcs h₁ h₂
    cases w with
    | null =>
      rw [tokens] at h₁ h₂
      obtain ⟨-, hr⟩ := word_unique (by decide) (by decide) hcs h₁ h₂ hr₁ hr₂
      exact ⟨rfl, hr⟩
    | _ => cases hkind
  | boolean b =>
    intro w cs ds r₁ r₂ hcs h₁ h₂ hr₁ hr₂
    have hkind := kind_eq hcs h₁ h₂
    cases w with
    | boolean b' =>
      rw [tokens] at h₁ h₂
      have hword : ∀ b : Bool, WordChars (toString b).toList := by decide
      have hinjective : ∀ b b' : Bool, toString b = toString b' → b = b' := by decide
      obtain ⟨hb, hr⟩ := word_unique (hword b) (hword b') hcs h₁ h₂ hr₁ hr₂
      rw [hinjective b b' hb]
      exact ⟨rfl, hr⟩
    | _ => cases hkind
  | number n =>
    intro w cs ds r₁ r₂ hcs h₁ h₂ hr₁ hr₂
    have hkind := kind_eq hcs h₁ h₂
    cases w with
    | number n' =>
      rw [tokens] at h₁ h₂
      have hword (n : Numeral) : WordChars (String.ofList n.chars).toList := by
        rw [String.toList_ofList]
        exact n.wordChars
      obtain ⟨hn, hr⟩ := word_unique (hword n) (hword n') hcs h₁ h₂ hr₁ hr₂
      rw [Numeral.ext_chars (String.ofList_injective hn)]
      exact ⟨rfl, hr⟩
    | _ => cases hkind
  | text s =>
    intro w cs ds r₁ r₂ hcs h₁ h₂ hr₁ hr₂
    have hkind := kind_eq hcs h₁ h₂
    cases w with
    | text s' =>
      rw [tokens] at h₁ h₂
      obtain ⟨rfl, mid, hrest₁, hrest₂⟩ := quoted_unique hcs h₁ h₂
      exact ⟨rfl, hrest₁.stripped_eq.symm.trans hrest₂.stripped_eq⟩
    | _ => cases hkind
  | list items ih =>
    intro w cs ds r₁ r₂ hcs h₁ h₂ hr₁ hr₂
    have hkind := kind_eq hcs h₁ h₂
    cases w with
    | list items' =>
      rw [tokens, itemTokens_eq_map] at h₁ h₂
      obtain ⟨m₁, hm₁, hitems₁⟩ := Starts.first h₁ (c := '[') rfl rfl
      obtain ⟨m₂, hm₂, hitems₂⟩ := Starts.first h₂ (c := '[') rfl rfl
      rw [hcs, hm₂] at hm₁
      obtain rfl := (List.cons.inj hm₁).2
      have hfirst (v : Tree) : ∃ t ts d more, v.tokens = t :: ts ∧ t.written.toList = d :: more ∧
          isSpace d = false ∧ d ≠ ']' := by
        obtain ⟨t, ts, d, more, hv, ht, hd⟩ := v.exists_first
        refine ⟨t, ts, d, more, hv, ht, Kind.isSpace_of_of? hd, ?_⟩
        rintro rfl
        cases hd
      obtain ⟨hitems, hr⟩ := closes_list.items_unique ih hfirst rfl hitems₁ hitems₂
      exact ⟨by rw [hitems], hr⟩
    | _ => cases hkind
  | object members ih =>
    intro w cs ds r₁ r₂ hcs h₁ h₂ hr₁ hr₂
    have hkind := kind_eq hcs h₁ h₂
    cases w with
    | object members' =>
      rw [tokens, memberTokens_eq_map] at h₁ h₂
      obtain ⟨m₁, hm₁, hmembers₁⟩ := Starts.first h₁ (c := '{') rfl rfl
      obtain ⟨m₂, hm₂, hmembers₂⟩ := Starts.first h₂ (c := '{') rfl rfl
      rw [hcs, hm₂] at hm₁
      obtain rfl := (List.cons.inj hm₁).2
      have hfirst (m : Spelling × Tree) : ∃ t ts d more, memberToken m = t :: ts ∧
          t.written.toList = d :: more ∧ isSpace d = false ∧ d ≠ '}' :=
        ⟨_, _, '"', _, rfl, toList_quoted m.1, rfl, by decide⟩
      obtain ⟨hmembers, hr⟩ := closes_object.items_unique
        (fun m hm => determined_member (ih m hm)) hfirst rfl hmembers₁ hmembers₂
      exact ⟨by rw [hmembers], hr⟩
    | _ => cases hkind

/-- **A text writes one tree at most.** -/
theorem eq_of_spaced {v w : Tree} {text : String} (hv : Spaced v.tokens text)
    (hw : Spaced w.tokens text) : v = w := by
  have hstarts {v : Tree} (h : Spaced v.tokens text) : Starts v.tokens text.toList [] :=
    ⟨text.toList, (List.append_nil _).symm, by rw [String.ofList_toList]; exact h⟩
  have hend : EndsWord [] := fun c hc => by cases hc
  exact (v.determined w _ _ _ _ rfl (hstarts hv) (hstarts hw) hend hend).1

end Tree

end Json

end Storyboard
