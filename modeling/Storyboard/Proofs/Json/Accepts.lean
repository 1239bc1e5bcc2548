/-
Storyboard/Proofs/Json/Accepts.lean

The values that readers accept: scalars and lists.

`r.Takes P` says that on every text the reader `r` succeeds only where the text starts
with a tree of which `P` holds, and stops behind it.  There is one lemma for each reader,
from the readers of the parts to that of the whole.
-/
import Storyboard.Json.Shape
import Storyboard.Proofs.Json.Numerals

namespace Storyboard

namespace Json

/-- The tree is a whole number in a range, as whole numbers are written. -/
def Tree.IsWhole (low high : Int) (v : Tree) : Prop :=
  ∃ (n : Numeral) (i : Int), v = .number n ∧ n.chars = (toString i).toList ∧ low ≤ i ∧ i ≤ high

/-- The tree is a number. -/
def Tree.IsNumber (v : Tree) : Prop := ∃ n, v = .number n

/-- The tree is a string that stands for a text. -/
def Tree.IsText (v : Tree) : Prop := ∃ (s : Spelling) (text : String), v = .text s ∧
  s.text? = some text

/-- The tree is a list of trees of one kind. -/
def Tree.IsList (P : Tree → Prop) (v : Tree) : Prop := ∃ items, v = .list items ∧
  ∀ item ∈ items, P item

namespace Reader

variable {α β : Type} {cs : List Char} {P : Tree → Prop}

/-- On every text the reader accepts only a tree of which `P` holds. -/
def Takes (r : Reader α) (P : Tree → Prop) : Prop :=
  ∀ cs, r.On cs fun _ rest => ∃ v : Tree, Starts v.tokens cs rest ∧ P v

theorem Takes.mono {r : Reader α} {Q : Tree → Prop} (h : r.Takes P) (hPQ : ∀ v, P v → Q v) :
    r.Takes Q :=
  fun cs => (h cs).mono fun _ _ ⟨v, hv, hP⟩ => ⟨v, hv, hPQ v hP⟩

/-! ### Pieces of punctuation -/

/-- Passing over a byte that is a token, after white space. -/
theorem on_skip_token_bind (t : Token) {b k : UInt8} {mid : List Char} {f : Unit → Reader α}
    {post : α → List Char → Prop} (hmid : Starts [] cs mid) (hb : (encoded mid).head? = some b)
    (hk : b = k) (hlt : k < 0x80) (ht : t.written.toList = [Char.ofNat k.toNat])
    (hf : ∀ rest, Starts [t] cs rest → (f ()).On rest post) : (skip 1 >>= f).On mid post := by
  subst hk
  exact on_skip_bind hb hlt fun rest hrest => hf rest (hmid.char hrest ht)

/-- The same at the end of a reader. -/
theorem on_skip_token {t : Token} {b k : UInt8} {mid : List Char} (hmid : Starts [] cs mid)
    (hb : (encoded mid).head? = some b) (hk : b = k) (hlt : k < 0x80)
    (ht : t.written.toList = [Char.ofNat k.toNat]) :
    (skip 1).On mid fun _ rest => Starts [t] cs rest :=
  on_skip_token_bind t (f := Pure.pure) hmid hb hk hlt ht fun _ hrest => On.pure hrest

theorem on_separator (cs : List Char) : separator.On cs fun _ rest => Starts [.colon] cs rest := by
  refine on_token_bind (fun _ => On.failNext (by decide)) fun b mid hmid hb => ?_
  dsimp only
  split
  · rename_i hcolon
    exact on_skip_token hmid hb hcolon (by decide) rfl
  · exact On.failNext (by decide)

theorem on_endObject (cs : List Char) :
    endObject.On cs fun _ rest => Starts [.closeObject] cs rest := by
  refine on_token_bind (fun _ => On.failNext (by decide)) fun b mid hmid hb => ?_
  dsimp only
  split
  · rename_i hclose
    exact on_skip_token hmid hb hclose (by decide) rfl
  split
  · exact On.failNext (by decide)
  · exact On.failNext (by decide)

theorem on_endList (cs : List Char) : endList.On cs fun _ rest => Starts [.closeList] cs rest := by
  refine on_token_bind (fun _ => On.failNext (by decide)) fun b mid hmid hb => ?_
  dsimp only
  split
  · rename_i hclose
    exact on_skip_token hmid hb hclose (by decide) rfl
  split
  · rename_i hcomma
    refine on_skip_bind hb (by rw [hcomma]; decide) fun rest _ => ?_
    refine on_token_bind (fun _ => On.failNext (by decide)) fun c mid _ _ => ?_
    dsimp only
    split
    · exact On.failNext (by decide)
    · exact On.failNext (by decide)
  · exact On.failNext (by decide)

/-- Either another element follows, or the list ends here. -/
theorem on_nextElement (first : Bool) (cs : List Char) :
    (nextElement first).On cs fun more rest =>
      if more then Starts (separation first) cs rest
      else Starts [] cs rest ∧ ∃ after, rest = ']' :: after := by
  refine on_token_bind (fun _ => On.failNext (by decide)) fun b mid hmid hb => ?_
  dsimp only
  split
  · rename_i hclose
    obtain ⟨after, hafter⟩ := eq_cons_of_head hb (by rw [hclose]; decide)
    refine On.pure ⟨hmid, after, ?_⟩
    rw [hafter, hclose]
    rfl
  split
  · rename_i hfirst
    rw [hfirst]
    exact On.pure hmid
  split
  · rename_i hfirst hcomma
    have hfirst : first = false := by simpa using hfirst
    subst hfirst
    refine on_skip_token_bind .comma hmid hb hcomma (by decide) rfl fun rest hstarts => ?_
    refine on_token_bind (fun _ => On.failNext (by decide)) fun c mid hmid _ => ?_
    dsimp only
    split
    · exact On.failNext (by decide)
    · exact On.pure (hstarts.trans hmid)
  · exact On.failNext (by decide)

/-- Either the quote of another name follows, or the object ends here. -/
theorem on_nextMember (first : Bool) (cs : List Char) :
    (nextMember first).On cs fun more rest =>
      Starts (if more then separation first else []) cs (if more then '"' :: rest else rest) := by
  have hname (ts : List Token) (b : UInt8) (mid : List Char) (hmid : Starts ts cs mid)
      (hb : (encoded mid).head? = some b) :
      (nextMember.name b).On mid fun more rest =>
        Starts (if more then ts else []) cs (if more then '"' :: rest else rest) := by
    rw [nextMember.name]
    split
    · rename_i hquote
      refine on_skip_bind hb (by rw [hquote]; decide) fun rest hrest => On.pure ?_
      rw [hrest, hquote] at hmid
      exact hmid
    · exact On.failNext (by decide)
  refine on_token_bind (fun _ => On.failNext (by decide)) fun b mid hmid hb => ?_
  dsimp only
  split
  · exact On.pure hmid
  split
  · rename_i hfirst
    rw [hfirst]
    exact hname [] b mid hmid hb
  split
  · rename_i hfirst hcomma
    have hfirst : first = false := by simpa using hfirst
    subst hfirst
    refine on_skip_token_bind .comma hmid hb hcomma (by decide) rfl fun rest hstarts => ?_
    refine on_token_bind (fun _ => On.failNext (by decide)) fun c mid hmid hc => ?_
    dsimp only
    split
    · exact On.failNext (by decide)
    · exact hname [.comma] c mid (hstarts.trans hmid) hc
  · exact On.failNext (by decide)

/-- A string after its quote. -/
theorem starts_quoted {s : Spelling} {ts : List Token} {rest : List Char}
    (h : Starts ts cs ('"' :: (s.written ++ '"' :: rest))) :
    Starts (ts ++ [Token.word s.quoted]) cs rest := by
  have htoken := Starts.token (.word s.quoted) rest
  have hchars : (Token.word s.quoted).written.toList ++ rest =
      '"' :: (s.written ++ '"' :: rest) := by
    show s.quoted.toList ++ rest = _
    rw [Spelling.quoted, String.toList_ofList, List.cons_append, List.append_assoc]
    rfl
  rw [hchars] at htoken
  exact h.trans htoken

/-! ### Values of the wrong kind -/

theorem on_found (cs : List Char) : found.On cs fun _ _ => True := by
  refine On.bind (on_peek cs) ?_
  rintro b? mid ⟨rfl, hb⟩
  split
  · exact On.failNext (by decide)
  rename_i b
  split
  · rename_i h
    refine on_skip_bind hb.symm (by rw [h]; decide) fun rest _ => ?_
    exact On.bind (on_nullRest rest) fun _ _ _ => On.pure trivial
  split
  · rename_i h
    refine on_skip_bind hb.symm (by rw [h]; decide) fun rest _ => ?_
    exact On.bind (on_trueRest rest) fun _ _ _ => On.pure trivial
  split
  · rename_i h
    refine on_skip_bind hb.symm (by rw [h]; decide) fun rest _ => ?_
    exact On.bind (on_falseRest rest) fun _ _ _ => On.pure trivial
  split
  · exact On.bind (on_number hb.symm) fun _ _ _ => On.pure trivial
  split
  · rename_i h
    refine on_skip_bind hb.symm (by rw [h]; decide) fun rest _ => ?_
    exact On.bind (on_stringRest rest) fun _ _ _ => On.pure trivial
  split
  · exact On.pure trivial
  split
  · exact On.pure trivial
  · exact On.failNext (by decide)

theorem on_wrongKind (expected : String) (cs : List Char) (post : α → List Char → Prop) :
    (wrongKind expected : Reader α).On cs post :=
  On.placing (On.bind (on_found cs) fun _ _ _ => On.failUnplaced (by intro h; cases h))

/-! ### Scalars -/

/-- A number, and what is made of it. -/
theorem on_numberAs {expected : String} {convert : Number → Reader α} {Q : Number → α → Prop}
    (hconvert : ∀ n mid, (convert n).On mid fun a rest => mid = rest ∧ Q n a) (cs : List Char) :
    (numberAs expected convert).On cs fun a rest => ∃ (num : Numeral) (n : Number),
      Starts (Tree.number num).tokens cs rest ∧ Q n a ∧
        ∀ i, n.whole? = some i → num.chars = (toString i).toList := by
  refine on_token_bind (fun _ => On.failNext (by decide)) fun b mid hmid hb => ?_
  dsimp only
  split
  · refine On.placing (On.bind (on_number hb) ?_)
    rintro n after ⟨num, rfl, hnum⟩
    refine (hconvert n after).mono ?_
    rintro _ rest ⟨rfl, hn⟩
    refine ⟨num, n, ?_, hn, hnum⟩
    rw [Tree.tokens]
    exact hmid.word (by rw [String.toList_ofList])
  · exact on_wrongKind expected mid _

/-- A whole number of the type, as whole numbers are written. -/
theorem on_integer (expected : String) (accept : Int → Option α) (cs : List Char) :
    (integer expected accept).On cs fun a rest => ∃ (num : Numeral) (i : Int),
      Starts (Tree.number num).tokens cs rest ∧ num.chars = (toString i).toList ∧
        accept i = some a := by
  have haccepted (i : Int) (mid : List Char) :
      (integer.accepted expected accept i).On mid fun a rest => mid = rest ∧
        accept i = some a := by
    rw [integer.accepted]
    split
    · rename_i a ha
      exact On.pure ⟨rfl, ha⟩
    · exact On.failUnplaced (by intro h; cases h)
  refine (on_numberAs (Q := fun n a => ∃ i, n.whole? = some i ∧ accept i = some a) ?_ cs).mono ?_
  · intro n mid
    cases n with
    | natural n =>
      refine (haccepted n mid).mono ?_
      rintro a rest ⟨rfl, ha⟩
      exact ⟨rfl, n, rfl, ha⟩
    | negative i =>
      refine (haccepted i mid).mono ?_
      rintro a rest ⟨rfl, ha⟩
      exact ⟨rfl, i, rfl, ha⟩
    | float x => exact On.failUnplaced (by intro h; cases h)
  · rintro a rest ⟨num, n, hstarts, ⟨i, hi, ha⟩, hnum⟩
    exact ⟨num, i, hstarts, hnum i hi, ha⟩

theorem takes_integer {expected : String} {accept : Int → Option α} {low high : Int}
    (h : ∀ i a, accept i = some a → low ≤ i ∧ i ≤ high) :
    (integer expected accept).Takes (Tree.IsWhole low high) := by
  intro cs
  refine (on_integer expected accept cs).mono ?_
  rintro a rest ⟨num, i, hstarts, hnum, ha⟩
  exact ⟨.number num, hstarts, num, i, rfl, hnum, h i a ha⟩

theorem takes_float : float.Takes Tree.IsNumber := by
  intro cs
  refine (on_numberAs (Q := fun _ _ => True) (fun n mid => On.pure ⟨rfl, trivial⟩) cs).mono ?_
  rintro a rest ⟨num, n, hstarts, -⟩
  exact ⟨.number num, hstarts, num, rfl⟩

theorem takes_string : string.Takes Tree.IsText := by
  intro cs
  refine on_token_bind (fun _ => On.failNext (by decide)) fun b mid hmid hb => ?_
  dsimp only
  split
  · rename_i hquote
    refine On.placing (on_skip_bind hb (by rw [hquote]; decide) fun rest hrest => ?_)
    refine (on_stringRest rest).mono ?_
    rintro text after ⟨s, rfl, hs⟩
    refine ⟨.text s, ?_, s, text, rfl, hs⟩
    rw [hrest, hquote] at hmid
    exact starts_quoted hmid
  · exact on_wrongKind _ mid _

theorem takes_nothing : nothing.Takes (· = .null) := by
  intro cs
  refine on_token_bind (fun _ => On.failNext (by decide)) fun b mid hmid hb => ?_
  dsimp only
  split
  · rename_i h
    refine On.placing (on_skip_bind hb (by rw [h]; decide) fun rest hrest => ?_)
    refine (on_nullRest rest).mono ?_
    rintro _ after rfl
    refine ⟨.null, hmid.word ?_, rfl⟩
    rw [hrest, h]
    rfl
  · exact on_wrongKind _ mid _

/-! ### Lists -/

/-- The elements of a list, with commas between them. -/
theorem on_elements {element : Reader α} (h : element.Takes P) (cs : List Char) :
    (loop (elementStep element) []).On cs fun _ rest => ∃ items : List Tree,
      Starts (commaSeparated (items.map Tree.tokens)) cs rest ∧ ∀ v ∈ items, P v := by
  -- one tree for each element that was found
  refine On.loop (fun found mid => ∃ items : List Tree, items.length = found.length ∧
    Starts (commaSeparated (items.map Tree.tokens)) cs mid ∧ ∀ v ∈ items, P v) ?_
    ⟨[], rfl, .refl cs, fun v hv => absurd hv List.not_mem_nil⟩
  rintro found mid ⟨items, hlength, hitems, hP⟩
  have hempty : (items.map Tree.tokens).isEmpty = found.isEmpty := by
    rw [List.isEmpty_map, Bool.eq_iff_iff, List.isEmpty_iff_length_eq_zero,
      List.isEmpty_iff_length_eq_zero, hlength]
  refine On.bind (on_nextElement found.isEmpty mid) ?_
  rintro more next hnext
  split
  · rename_i hmore
    rw [if_pos hmore] at hnext
    refine On.bind (h next) ?_
    rintro a after ⟨v, hv, hPv⟩
    refine On.pure ⟨items ++ [v], by simp [hlength], ?_, ?_⟩
    · rw [List.map_append, List.map_singleton, commaSeparated_concat, hempty]
      exact hitems.trans (hnext.trans hv)
    · intro w hw
      obtain hw | hw := List.mem_append.mp hw
      · exact hP w hw
      · rw [List.mem_singleton.mp hw]
        exact hPv
  · rename_i hmore
    rw [if_neg hmore] at hnext
    have h := hitems.trans hnext.1
    rw [List.append_nil] at h
    exact On.pure ⟨items, h, hP⟩

theorem takes_list {element : Reader α} (h : element.Takes P) :
    (list element).Takes (Tree.IsList P) := by
  intro cs
  refine on_token_bind (fun _ => On.failNext (by decide)) fun b mid hmid hb => ?_
  dsimp only
  split
  · rename_i hopen
    refine On.placing (on_skip_token_bind .openList hmid hb hopen (by decide) rfl
      fun rest hstart => ?_)
    refine On.closing (on_elements h rest) ?_
    rintro found after ⟨items, hitems, hP⟩
    refine (on_endList after).mono ?_
    rintro _ more hend
    refine ⟨.list items, ?_, items, rfl, hP⟩
    rw [Tree.tokens, Tree.itemTokens_eq_map]
    exact hstart.trans (hitems.trans hend)
  · exact on_wrongKind _ mid _

end Reader

end Json

end Storyboard
