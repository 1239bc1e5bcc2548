/-
Storyboard/Proofs/Json/Reads.lean

Readers that read written values: scalars and lists.

`Reads r a v` says that the reader `r` answers `a` wherever the value `v` stands
in a text, with any blanks inside it.  There is one lemma for each reader of
`Storyboard.Json.Shape`, from the readers of the parts to that of the whole.

Each repetition has two lemmas: one for the items after a comma, by induction
over them, and one for the whole, whose first item has none.
-/
import Storyboard.Proofs.Json.Layout

namespace Storyboard

namespace Json

variable {α β : Type}

/-- The value's text begins with a byte that is no delimiter. -/
def Value.Begins (v : Value) : Prop :=
  ∃ t ts b more, v.tokens = t :: ts ∧ t.bytes = b :: more ∧ isDelimiter b = false

/-- The reader answers `a` wherever the value `v` is written. -/
structure Reads (r : Reader α) (a : α) (v : Value) : Prop where
  begins : v.Begins
  yields : ∀ {tail bytes}, Delimited tail → Laid tail v.tokens bytes → r.Yields bytes a tail

theorem isBlank_of_not_isDelimiter {b : UInt8} (h : isDelimiter b = false) :
    isBlank b = false := by
  simp only [isDelimiter, Bool.or_eq_false_iff] at h
  exact h.1.1.1

theorem ne_of_not_isDelimiter {b c : UInt8} (h : isDelimiter b = false)
    (hc : isDelimiter c = true) : b ≠ c := by
  rintro rfl
  rw [h] at hc
  cases hc

namespace Reads

/-- What is made of the value without reading on. -/
theorem bind_pure {r : Reader α} {f : α → Reader β} {a : α} {b : β} {v : Value}
    (h : Reads r a v) (hf : f a = pure b) : Reads (r >>= f) b v := by
  refine ⟨h.begins, fun htail hlaid => ?_⟩
  apply Reader.Yields.bind (h.yields htail hlaid)
  rw [hf]
  exact Reader.Yields.pure b _

end Reads

/-! ### Scalars -/

theorem reads_string (s : String) : Reads Reader.string s (.text s) := by
  refine ⟨⟨.text s, [], quoteMark, _, rfl, encode_quote s, rfl⟩, ?_⟩
  intro tail bytes _ hlaid
  obtain ⟨mid, rest, hahead, hread, rfl, -⟩ := Laid.text_ahead hlaid
  apply Reader.Yields.bind hahead.token
  apply Reader.Yields.placing
  apply Reader.Yields.bind (Reader.yields_skip_one quoteMark mid)
  exact hread

/-- A number, handed to what makes a value of it. -/
theorem reads_numberAs {expected : String} {convert : Number → Reader α} {n : Number} {a : α}
    {v : Value} {word : String} (hv : v.tokens = [.word word])
    (hread : Reader.ReadsNumber (Utf8.encode word) n) (ha : convert n = pure a) :
    Reads (Reader.numberAs expected convert) a v := by
  obtain ⟨⟨b, more, hword, hb⟩, hyields⟩ := hread
  -- a delimiter is neither a digit nor the minus sign
  have hdelimiter : isDelimiter b = false := by
    cases h : isDelimiter b with
    | false => rfl
    | true =>
      have hdigit := (isDelimiter_stops h).1
      rw [Reader.beginsNumber, hdigit, Bool.or_false, decide_eq_true_iff] at hb
      subst hb
      exact absurd h (by decide)
  have hbytes : Token.bytes (.word word) = b :: more := hword
  refine ⟨⟨.word word, [], b, more, hv, hbytes, hdelimiter⟩, ?_⟩
  intro tail bytes htail hlaid
  rw [hv] at hlaid
  obtain ⟨rest, hahead, hrest⟩ := hlaid.ahead hbytes (isBlank_of_not_isDelimiter hdelimiter)
  obtain rfl : rest = tail := hrest
  apply Reader.Yields.bind hahead.token
  show (if Reader.beginsNumber b = true then _ else _ : Reader α).Yields _ _ _
  rw [if_pos hb]
  apply Reader.Yields.placing
  have hnumber := hyields b rest (by rw [hword]; rfl) htail
  rw [hword] at hnumber
  apply Reader.Yields.bind hnumber
  rw [ha]
  exact Reader.Yields.pure a rest

theorem reads_float {x : Binary64} (h : ReadsBack x) : Reads Reader.float x (.float x) := by
  obtain ⟨n, hn, hread⟩ := readsNumber_of_readsBack h
  exact reads_numberAs rfl hread (congrArg pure hn)

/-- A whole number of 64 bits that the type accepts. -/
theorem reads_integer {expected : String} {accept : Int → Option α} {i : Int} {a : α}
    (hlow : -0x8000000000000000 ≤ i) (hhigh : i ≤ 0xffffffffffffffff) (ha : accept i = some a) :
    Reads (Reader.integer expected accept) a (.integer i) := by
  have haccepted : Reader.integer.accepted expected accept i = pure a := by
    rw [Reader.integer.accepted, ha]
  refine reads_numberAs rfl (Reader.readsNumber_toString hlow hhigh) ?_
  by_cases hnonneg : 0 ≤ i
  · have hvalue : (i.toNat : Int) = i := Int.toNat_of_nonneg hnonneg
    rw [Reader.wholeNumber, if_pos hnonneg]
    show Reader.integer.accepted expected accept (i.toNat : Int) = pure a
    rw [hvalue]
    exact haccepted
  · rw [Reader.wholeNumber, if_neg hnonneg]
    exact haccepted

/-! ### Separated items -/

/-- The items after the first, each with the comma before it. -/
def laterItems (items : List (List Token)) : List Token :=
  items.flatMap fun item => Token.comma :: item

theorem commaSeparated_cons (item : List Token) (items : List (List Token)) :
    commaSeparated (item :: items) = item ++ laterItems items := by
  induction items generalizing item with
  | nil =>
    rw [laterItems, List.flatMap_nil, List.append_nil]
    rfl
  | cons next items ih =>
    show item ++ Token.comma :: commaSeparated (next :: items) = _
    rw [ih next, laterItems, laterItems, List.flatMap_cons]
    rfl

/-- After an item comes the comma of the next one, or the end. -/
theorem delimited_laterItems {close : Token} {c : UInt8} {items : List (List Token)}
    {tail bytes : List UInt8} (h : Laid tail (laterItems items ++ [close]) bytes)
    (hclose : close.bytes = [c]) (hc : isDelimiter c = true) : Delimited bytes := by
  cases items with
  | nil => exact Laid.delimited h hclose hc
  | cons item items => exact Laid.delimited h rfl (b := comma) rfl

/-! ### Lists -/

theorem listTokens_eq_map (items : List Value) : listTokens items = items.map Value.tokens := by
  induction items with
  | nil => rfl
  | cons item items ih => rw [listTokens, ih, List.map_cons]

variable {element : Reader α}

/-- The value that comes next: its first byte, which a look finds after the blanks
before it, and what is left after it. -/
theorem Value.Begins.ahead {v : Value} (h : v.Begins) {ts : List Token}
    {tail bytes : List UInt8} (hlaid : Laid tail (v.tokens ++ ts) bytes) :
    ∃ b rest mid, isDelimiter b = false ∧ Reader.Ahead bytes b rest ∧
      Laid mid v.tokens (b :: rest) ∧ Laid tail ts mid ∧ mid.length < bytes.length := by
  obtain ⟨t, us, b, more, hv, ht, hb⟩ := h
  rw [hv] at hlaid
  obtain ⟨left, hahead, hleft⟩ := Laid.ahead hlaid ht (isBlank_of_not_isDelimiter hb)
  obtain ⟨mid, hmid, htail⟩ := Laid.split hleft
  refine ⟨b, more ++ left, mid, hb, hahead, ?_, htail, ?_⟩
  · rw [hv]
    refine ⟨[], left, fun c hc => absurd hc List.not_mem_nil, ?_, hmid⟩
    rw [ht]
    rfl
  · have hle := hmid.length_le
    have hlt := hahead.length_lt
    rw [List.length_append] at hlt
    omega

/-- The elements after the first, and the end of the list. -/
theorem yields_laterElements {pairs : List (α × Value)}
    (h : ∀ p ∈ pairs, Reads element p.1 p.2) {found : List α} (hfound : found.isEmpty = false)
    {tail bytes : List UInt8}
    (hlaid : Laid tail (laterItems (pairs.map fun p => p.2.tokens) ++ [Token.closeList]) bytes) :
    (Reader.loop (Reader.elementStep element) found).Yields bytes
      (found.reverse ++ pairs.map Prod.fst) (closeBracket :: tail) := by
  induction pairs generalizing found bytes with
  | nil =>
    have hend : Reader.Ahead bytes closeBracket tail := Laid.closeList_ahead hlaid
    rw [List.map_nil, List.append_nil]
    apply Reader.Yields.loop_stop
    apply Reader.Yields.bind (hend.noElement _)
    exact Reader.Yields.pure _ _
  | cons p pairs ih =>
    obtain ⟨a, v⟩ := p
    have hv : Reads element a v := h (a, v) List.mem_cons_self
    rw [List.map_cons, laterItems, List.flatMap_cons, List.append_assoc] at hlaid
    -- the comma, the element, and what comes after it
    obtain ⟨next, hcomma, hnext⟩ := Laid.comma_ahead hlaid
    obtain ⟨b, rest, mid, hb, hahead, hitem, hmid, hlt⟩ := hv.begins.ahead hnext
    have hdelimited : Delimited mid := delimited_laterItems hmid rfl rfl
    have hstep : (Reader.elementStep element found).Yields bytes (.inl (a :: found)) mid := by
      rw [Reader.elementStep, hfound]
      apply Reader.Yields.bind (hcomma.laterElement hahead (ne_of_not_isDelimiter hb rfl))
      apply Reader.Yields.bind (hv.yields hdelimited hitem)
      exact Reader.Yields.pure _ mid
    have hrec := ih (fun q hq => h q (List.mem_cons_of_mem _ hq))
      (rfl : (a :: found).isEmpty = false) hmid
    rw [List.reverse_cons, List.append_assoc] at hrec
    exact Reader.Yields.loop_go hstep (Nat.lt_trans hlt hcomma.length_lt) hrec

/-- The elements of a list, up to its closing bracket. -/
theorem yields_elements {pairs : List (α × Value)} (h : ∀ p ∈ pairs, Reads element p.1 p.2)
    {tail bytes : List UInt8}
    (hlaid : Laid tail (commaSeparated (pairs.map fun p => p.2.tokens) ++ [Token.closeList])
      bytes) :
    (Reader.loop (Reader.elementStep element) []).Yields bytes (pairs.map Prod.fst)
      (closeBracket :: tail) := by
  cases pairs with
  | nil =>
    have hend : Reader.Ahead bytes closeBracket tail := Laid.closeList_ahead hlaid
    apply Reader.Yields.loop_stop
    apply Reader.Yields.bind (hend.noElement _)
    exact Reader.Yields.pure _ _
  | cons p pairs =>
    obtain ⟨a, v⟩ := p
    have hv : Reads element a v := h (a, v) List.mem_cons_self
    rw [List.map_cons, commaSeparated_cons, List.append_assoc] at hlaid
    obtain ⟨b, rest, mid, hb, hahead, hitem, hmid, hlt⟩ := hv.begins.ahead hlaid
    have hdelimited : Delimited mid := delimited_laterItems hmid rfl rfl
    have hstep : (Reader.elementStep element []).Yields bytes (.inl [a]) mid := by
      apply Reader.Yields.bind (hahead.firstElement (ne_of_not_isDelimiter hb rfl))
      apply Reader.Yields.bind (hv.yields hdelimited hitem)
      exact Reader.Yields.pure _ mid
    have hrec := yields_laterElements (fun q hq => h q (List.mem_cons_of_mem _ hq))
      (rfl : [a].isEmpty = false) hmid
    exact Reader.Yields.loop_go hstep hlt hrec

/-- A list is read if each element is. -/
theorem reads_list {pairs : List (α × Value)} (h : ∀ p ∈ pairs, Reads element p.1 p.2) :
    Reads (Reader.list element) (pairs.map Prod.fst) (.list (pairs.map Prod.snd)) := by
  have htokens : listTokens (pairs.map Prod.snd) = pairs.map fun p => p.2.tokens := by
    rw [listTokens_eq_map, List.map_map]
    rfl
  refine ⟨⟨.openList, _, openBracket, [], rfl, rfl, rfl⟩, ?_⟩
  intro tail bytes _ hlaid
  rw [Value.tokens, htokens] at hlaid
  obtain ⟨rest, hahead, hrest⟩ := Laid.openList_ahead hlaid
  apply Reader.Yields.bind hahead.token
  apply Reader.Yields.placing
  apply Reader.Yields.bind (Reader.yields_skip_one openBracket rest)
  apply Reader.Yields.closing (yields_elements h hrest)
  exact (Reader.ahead_cons rfl tail).endList

/-! ### Whole texts -/

theorem delimited_of_blanks {tail : List UInt8} (h : ∀ b ∈ tail, isBlank b = true) :
    Delimited tail := by
  cases tail with
  | nil =>
    intro b hb
    cases hb
  | cons b rest =>
    apply delimited_cons
    rw [isDelimiter, h b List.mem_cons_self]
    rfl

/-- A value that is read is read from every text of it, whatever white space there is
between the tokens. -/
theorem Reads.runOn_spaced {r : Reader α} {a : α} {v : Value} (h : Reads r a v) {text : String}
    (htext : Spaced v.tokens text) (source : Source) :
    Reader.runOn r source (Utf8.encode text) = .ok a := by
  obtain ⟨tail, hblanks, hlaid⟩ := htext.laid
  have hend : Reader.token.Yields tail none [] := by
    have hread := Reader.yields_token (tail ++ [])
    rw [List.dropWhile_append_of_pos hblanks, List.append_nil] at hread
    exact hread
  have hdocument : (Reader.document r).Yields (Utf8.encode text) a [] := by
    apply Reader.Yields.bind (h.yields (delimited_of_blanks hblanks) hlaid)
    apply Reader.Yields.bind hend
    exact Reader.Yields.pure a []
  obtain ⟨j, hj, -⟩ := hdocument (.start (Utf8.encode text) source) rfl
  rw [Reader.runOn, hj]

end Json

end Storyboard
