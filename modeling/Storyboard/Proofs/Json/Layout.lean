/-
Storyboard/Proofs/Json/Layout.lean

Texts with white space between their tokens.

`Spaced tokens text` says that a text writes some tokens with any white space
around them; the compact text is the one with none.  On bytes the same is said
by `Laid tail tokens bytes`, where the tokens need not be the last thing in the
text: `tail` is what follows them.  A value is thus a piece of a larger text
with an end that another piece begins with, and `Reads` says of a reader that it
reads a value in every such place.
-/
import Storyboard.Proofs.Json.Doubles

namespace Storyboard

namespace Json

/-! ### Spaced texts -/

/-- White space of JSON texts. -/
def BlankText (s : String) : Prop :=
  ∀ c ∈ s.toList, c = ' ' ∨ c = '\n' ∨ c = '\t' ∨ c = '\r'

/-- A text that writes some tokens, with white space before each of them and after
the last. -/
inductive Spaced : List Token → String → Prop where
  | done {blanks : String} : BlankText blanks → Spaced [] blanks
  | token {t : Token} {ts : List Token} {blanks rest : String} :
      BlankText blanks → Spaced ts rest → Spaced (t :: ts) (blanks ++ t.written ++ rest)

theorem blankText_empty : BlankText "" := fun _ hc => absurd hc List.not_mem_nil

/-- The same white space before every token and at the end. -/
theorem spaced_join {blanks : String} (h : BlankText blanks) (ts : List Token) :
    Spaced ts (String.join (ts.map fun t => blanks ++ t.written) ++ blanks) := by
  induction ts with
  | nil =>
    rw [List.map_nil, String.join_nil, String.empty_append]
    exact .done h
  | cons t ts ih =>
    rw [List.map_cons, String.join_cons, String.append_assoc]
    exact .token h ih

/-- Without any white space the text is the compact one. -/
theorem spaced_written (v : Value) : Spaced v.tokens v.written := by
  have hwritten : (fun t : Token => "" ++ t.written) = Token.written := by
    funext t
    exact String.empty_append
  have h := spaced_join blankText_empty v.tokens
  rw [hwritten, String.append_empty] at h
  exact h

/-! ### Laid out bytes -/

/-- The bytes of a token. -/
def Token.bytes (t : Token) : List UInt8 := Utf8.encode t.written

/-- The bytes begin with some tokens, blanks before each of them, and end with
`tail`. -/
def Laid (tail : List UInt8) : List Token → List UInt8 → Prop
  | [], bytes => bytes = tail
  | t :: ts, bytes => ∃ blanks rest, (∀ b ∈ blanks, isBlank b = true) ∧
      bytes = blanks ++ (t.bytes ++ rest) ∧ Laid tail ts rest

variable {tail bytes : List UInt8} {t : Token} {ts us : List Token} {b : UInt8}

theorem isBlank_of_blankText {s : String} (h : BlankText s) :
    ∀ b ∈ Utf8.encode s, isBlank b = true := by
  intro b hb
  rw [Utf8.encode, List.mem_flatMap] at hb
  obtain ⟨c, hc, hb⟩ := hb
  obtain rfl | rfl | rfl | rfl := h c hc <;>
  · obtain rfl := List.mem_singleton.mp hb
    decide

/-- The bytes of a spaced text. -/
theorem Spaced.laid {text : String} (h : Spaced ts text) :
    ∃ tail, (∀ b ∈ tail, isBlank b = true) ∧ Laid tail ts (Utf8.encode text) := by
  induction h with
  | @done blanks hblanks => exact ⟨Utf8.encode blanks, isBlank_of_blankText hblanks, rfl⟩
  | @token t ts blanks rest hblanks _ ih =>
    obtain ⟨tail, htail, hrest⟩ := ih
    refine ⟨tail, htail, Utf8.encode blanks, Utf8.encode rest, isBlank_of_blankText hblanks, ?_,
      hrest⟩
    rw [Utf8.encode_append, Utf8.encode_append, List.append_assoc]
    rfl

namespace Laid

/-- Tokens in two parts: the second one begins where the first ends. -/
theorem split (h : Laid tail (ts ++ us) bytes) : ∃ mid, Laid mid ts bytes ∧ Laid tail us mid := by
  induction ts generalizing bytes with
  | nil => exact ⟨bytes, rfl, h⟩
  | cons t ts ih =>
    obtain ⟨blanks, rest, hblanks, hbytes, hrest⟩ := h
    obtain ⟨mid, hts, hus⟩ := ih hrest
    exact ⟨mid, ⟨blanks, rest, hblanks, hbytes, hts⟩, hus⟩

theorem length_le (h : Laid tail ts bytes) : tail.length ≤ bytes.length := by
  induction ts generalizing bytes with
  | nil =>
    obtain rfl : bytes = tail := h
    exact Nat.le_refl _
  | cons t ts ih =>
    obtain ⟨blanks, rest, -, rfl, hrest⟩ := h
    have hle := ih hrest
    rw [List.length_append, List.length_append]
    omega

/-- The first token, by its first byte. -/
theorem ahead {more : List UInt8} (h : Laid tail (t :: ts) bytes) (ht : t.bytes = b :: more)
    (hb : isBlank b = false) :
    ∃ rest, Reader.Ahead bytes b (more ++ rest) ∧ Laid tail ts rest := by
  obtain ⟨blanks, rest, hblanks, rfl, hrest⟩ := h
  refine ⟨rest, ?_, hrest⟩
  rw [ht]
  exact Reader.ahead_of_blanks hblanks hb (more ++ rest)

/-- What begins with a token that is a delimiter is delimited. -/
theorem delimited {more : List UInt8} (h : Laid tail (t :: ts) bytes) (ht : t.bytes = b :: more)
    (hb : isDelimiter b = true) : Delimited bytes := by
  obtain ⟨blanks, rest, hblanks, rfl, -⟩ := h
  cases blanks with
  | nil =>
    rw [ht]
    exact delimited_cons hb _
  | cons c cs =>
    have hc : isBlank c = true := hblanks c List.mem_cons_self
    apply delimited_cons
    rw [isDelimiter, hc]
    rfl

/-! ### Tokens of one byte, and texts -/

theorem comma_ahead (h : Laid tail (.comma :: ts) bytes) :
    ∃ rest, Reader.Ahead bytes comma rest ∧ Laid tail ts rest :=
  h.ahead rfl rfl

theorem colon_ahead (h : Laid tail (.colon :: ts) bytes) :
    ∃ rest, Reader.Ahead bytes colon rest ∧ Laid tail ts rest :=
  h.ahead rfl rfl

theorem openList_ahead (h : Laid tail (.openList :: ts) bytes) :
    ∃ rest, Reader.Ahead bytes openBracket rest ∧ Laid tail ts rest :=
  h.ahead rfl rfl

theorem openObject_ahead (h : Laid tail (.openObject :: ts) bytes) :
    ∃ rest, Reader.Ahead bytes openBrace rest ∧ Laid tail ts rest :=
  h.ahead rfl rfl

theorem closeList_ahead (h : Laid tail [.closeList] bytes) :
    Reader.Ahead bytes closeBracket tail := by
  obtain ⟨rest, hahead, rfl⟩ := h.ahead (b := closeBracket) rfl rfl
  exact hahead

theorem closeObject_ahead (h : Laid tail [.closeObject] bytes) :
    Reader.Ahead bytes closeBrace tail := by
  obtain ⟨rest, hahead, rfl⟩ := h.ahead (b := closeBrace) rfl rfl
  exact hahead

/-- A string, whose reader begins after the quote. -/
theorem text_ahead {s : String} (h : Laid tail (.text s :: ts) bytes) :
    ∃ mid rest, Reader.Ahead bytes quoteMark mid ∧ Reader.stringRest.Yields mid s rest ∧
      Laid tail ts rest ∧ rest.length < bytes.length := by
  obtain ⟨rest, hahead, hrest⟩ := h.ahead (encode_quote s) rfl
  refine ⟨_, rest, hahead, ?_, hrest, ?_⟩
  · rw [List.append_assoc]
    exact Reader.yields_stringRest s rest
  · have hlt := hahead.length_lt
    rw [List.length_append] at hlt
    omega

end Laid

end Json

end Storyboard
