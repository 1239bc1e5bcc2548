/-
Storyboard/Proofs/Json/PassedOver.lean

The values that are passed over.

A value that nobody asked for is passed over without recursion, with the open brackets
on a stack.  What was read inside of each of them is a `Frame`; the tokens of all frames
are what has been read so far (`Pending`).  A value that is complete closes brackets
until one of them goes on (`on_leave`), so that what is passed over is again one tree.
-/
import Storyboard.Proofs.Json.Accepts

namespace Storyboard

namespace Json

/-! ### Brackets -/

namespace Container

/-- The token that opens the container. -/
def openToken : Container → Token
  | list => .openList
  | object => .openObject

/-- The token that closes the container. -/
def closeToken : Container → Token
  | list => .closeList
  | object => .closeObject

/-- The container with nothing in it. -/
def empty : Container → Tree
  | list => .list []
  | object => .object []

theorem tokens_empty (c : Container) : c.empty.tokens = [c.openToken, c.closeToken] := by
  cases c with
  | list => rw [empty, Tree.tokens, Tree.itemTokens]; rfl
  | object => rw [empty, Tree.tokens, Tree.memberTokens]; rfl

theorem close_lt (c : Container) : c.close < 0x80 := by
  cases c <;> decide

theorem written_closeToken (c : Container) :
    c.closeToken.written.toList = [Char.ofNat c.close.toNat] := by
  cases c <;> rfl

theorem ended_ne (c : Container) : c.ended ≠ .invalidUtf8 := by
  cases c <;> decide

theorem expected_ne (c : Container) : c.expected ≠ .invalidUtf8 := by
  cases c <;> decide

end Container

/-- What was read inside of an open bracket, up to a value that comes next. -/
inductive Frame where
  | list (items : List Tree)
  | object (members : List (Spelling × Tree)) (name : Spelling)

namespace Frame

/-- The bracket. -/
def container : Frame → Container
  | list _ => .list
  | object _ _ => .object

/-- The tokens that were read. -/
def tokens : Frame → List Token
  | list items =>
    .openList :: (commaSeparated (items.map Tree.tokens) ++ separation items.isEmpty)
  | object members name =>
    .openObject :: (commaSeparated (members.map Tree.memberToken) ++
      (separation members.isEmpty ++ [.word name.quoted, .colon]))

/-- The whole, if a value is the last one. -/
def closed : Frame → Tree → Tree
  | list items, v => .list (items ++ [v])
  | object members name, v => .object (members ++ [(name, v)])

theorem closed_tokens (f : Frame) (v : Tree) :
    (f.closed v).tokens = f.tokens ++ (v.tokens ++ [f.container.closeToken]) := by
  cases f with
  | list items =>
    rw [closed, Tree.tokens, Tree.itemTokens_eq_map, List.map_append, List.map_singleton,
      commaSeparated_concat, List.isEmpty_map, tokens]
    simp only [List.append_assoc, List.cons_append]
    rfl
  | object members name =>
    rw [closed, Tree.tokens, Tree.memberTokens_eq_map, List.map_append, List.map_singleton,
      commaSeparated_concat, List.isEmpty_map, tokens, Tree.memberToken]
    simp only [List.append_assoc, List.cons_append, List.nil_append]
    rfl

end Frame

namespace Reader

/-! ### Open brackets -/

/-- The tokens inside of all open brackets, the innermost bracket first. -/
def opened : List Frame → List Token
  | [] => []
  | f :: outer => opened outer ++ f.tokens

/-- The brackets of the stack are open, and a value comes next. -/
def Pending (cs : List Char) (stack : List Container) (rest : List Char) : Prop :=
  ∃ frames : List Frame, frames.map Frame.container = stack ∧ Starts (opened frames) cs rest

/-- A value comes next inside of the brackets of a stack, or a value is complete. -/
def PendingOr (cs : List Char) (out : List Container ⊕ Unit) (rest : List Char) : Prop :=
  out.elim (fun stack => Pending cs stack rest) fun _ => ∃ v : Tree, Starts v.tokens cs rest

theorem on_skipName (cs : List Char) :
    skipName.On cs fun _ rest => ∃ name : Spelling, Starts [.word name.quoted, .colon] cs rest := by
  refine on_token_bind (fun _ => On.failNext (by decide)) fun b mid hmid hb => ?_
  dsimp only
  split
  · rename_i hquote
    refine on_skip_bind hb (by rw [hquote]; decide) fun rest hrest => ?_
    rw [hrest, hquote] at hmid
    refine On.bind (on_skipString rest) ?_
    rintro _ after ⟨s, rfl⟩
    refine (on_separator after).mono ?_
    rintro _ more hmore
    exact ⟨s, (starts_quoted hmid).trans hmore⟩
  · exact On.failNext (by decide)

/-- The first item of a bracket that was just opened. -/
theorem on_enterItem (c : Container) (cs : List Char) :
    (enterItem c).On cs fun _ rest => ∃ f : Frame, f.container = c ∧
      ∃ ts, f.tokens = c.openToken :: ts ∧ Starts ts cs rest := by
  cases c with
  | list => exact On.pure ⟨.list [], rfl, [], rfl, .refl cs⟩
  | object =>
    refine (on_skipName cs).mono ?_
    rintro _ rest ⟨name, hname⟩
    exact ⟨.object [] name, rfl, _, rfl, hname⟩

/-- The next item of an open bracket, after a value and a comma. -/
theorem on_enterItem_next (f : Frame) (v : Tree) (cs : List Char) :
    (enterItem f.container).On cs fun _ rest => ∃ g : Frame, g.container = f.container ∧
      ∃ ts, g.tokens = f.tokens ++ (v.tokens ++ .comma :: ts) ∧ Starts ts cs rest := by
  -- after a value the items are no longer empty
  have hempty {α : Type} (items : List α) (item : α) : (items ++ [item]).isEmpty = false := by
    cases items <;> rfl
  cases f with
  | list items =>
    refine On.pure ⟨.list (items ++ [v]), rfl, [], ?_, .refl cs⟩
    rw [Frame.tokens, Frame.tokens, hempty, List.map_append, List.map_singleton,
      commaSeparated_concat, List.isEmpty_map]
    simp only [List.append_assoc, List.cons_append]
    rfl
  | object members name =>
    refine (on_skipName cs).mono ?_
    rintro _ rest ⟨next, hnext⟩
    refine ⟨.object (members ++ [(name, v)]) next, rfl, _, ?_, hnext⟩
    rw [Frame.tokens, Frame.tokens, hempty, List.map_append, List.map_singleton,
      commaSeparated_concat, List.isEmpty_map, Tree.memberToken]
    simp only [List.append_assoc, List.cons_append, List.nil_append]
    rfl

/-- After a complete value: brackets are closed until one goes on. -/
theorem on_leave (cs : List Char) (frames : List Frame) (v : Tree) (mid : List Char)
    (h : Starts (opened frames ++ v.tokens) cs mid) :
    (leave (frames.map Frame.container)).On mid (PendingOr cs) := by
  induction frames generalizing v mid with
  | nil => exact On.pure ⟨v, h⟩
  | cons f outer ih =>
    rw [opened, List.append_assoc] at h
    refine on_token_bind (fun _ => On.failNext f.container.ended_ne) fun b next hnext hb => ?_
    dsimp only
    split
    · rename_i hcomma
      refine on_skip_token_bind .comma hnext hb hcomma (by decide) rfl fun rest hcomma => ?_
      refine On.bind (on_enterItem_next f v rest) ?_
      rintro _ more ⟨g, hg, ts, htokens, hts⟩
      refine On.pure ⟨g :: outer, by rw [List.map_cons, hg], ?_⟩
      rw [opened, htokens]
      have hall := h.trans (hcomma.trans hts)
      simp only [List.append_assoc] at hall
      exact hall
    split
    · rename_i hclose
      refine on_skip_token_bind f.container.closeToken hnext hb hclose f.container.close_lt
        f.container.written_closeToken fun rest hclose => ?_
      refine ih (f.closed v) rest ?_
      rw [Frame.closed_tokens]
      have hall := h.trans hclose
      simp only [List.append_assoc] at hall
      exact hall
    · exact On.failNext f.container.expected_ne

/-- After an opening bracket. -/
theorem on_enter (cs : List Char) (c : Container) (frames : List Frame) (mid : List Char)
    (h : Starts (opened frames ++ [c.openToken]) cs mid) :
    (enter c (frames.map Frame.container)).On mid (PendingOr cs) := by
  refine on_token_bind (fun _ => On.failNext c.ended_ne) fun b next hnext hb => ?_
  dsimp only
  split
  · rename_i hclose
    refine on_skip_token_bind c.closeToken hnext hb hclose c.close_lt c.written_closeToken
      fun rest hclose => ?_
    refine on_leave cs frames c.empty rest ?_
    rw [c.tokens_empty]
    have hall := h.trans hclose
    rw [List.append_assoc] at hall
    exact hall
  · refine On.bind (on_enterItem c next) ?_
    rintro _ rest ⟨f, hf, ts, htokens, hts⟩
    refine On.pure ⟨f :: frames, by rw [List.map_cons, hf], ?_⟩
    rw [opened, htokens]
    have hall := h.trans (hnext.trans hts)
    simp only [List.append_assoc] at hall
    exact hall

/-- A scalar with the brackets closed after it, or an opening bracket. -/
theorem on_skipStep (cs : List Char) (frames : List Frame) (mid : List Char)
    (h : Starts (opened frames) cs mid) :
    (skipStep (frames.map Frame.container)).On mid (PendingOr cs) := by
  have hscalar (v : Tree) {next rest : List Char} (hnext : Starts [] mid next)
      (hv : Starts v.tokens next rest) :
      (leave (frames.map Frame.container)).On rest (PendingOr cs) :=
    on_leave cs frames v rest (h.trans (hnext.trans hv))
  refine on_token_bind (fun _ => On.failNext (by decide)) fun b next hnext hb => ?_
  dsimp only
  split
  · rename_i hword
    refine on_skip_bind hb (by rw [hword]; decide) fun rest hrest => ?_
    refine On.bind (on_nullRest rest) ?_
    rintro _ more rfl
    refine hscalar .null hnext (Starts.word (.refl next) ?_)
    rw [hrest, hword]
    rfl
  split
  · rename_i hword
    refine on_skip_bind hb (by rw [hword]; decide) fun rest hrest => ?_
    refine On.bind (on_trueRest rest) ?_
    rintro _ more rfl
    refine hscalar (.boolean true) hnext (Starts.word (.refl next) ?_)
    rw [hrest, hword]
    rfl
  split
  · rename_i hword
    refine on_skip_bind hb (by rw [hword]; decide) fun rest hrest => ?_
    refine On.bind (on_falseRest rest) ?_
    rintro _ more rfl
    refine hscalar (.boolean false) hnext (Starts.word (.refl next) ?_)
    rw [hrest, hword]
    rfl
  split
  · rename_i hminus
    refine on_skip_bind hb (by rw [hminus]; decide) fun rest hrest => ?_
    refine On.bind (on_skipNumber rest) ?_
    rintro _ more ⟨ds, rfl, hds⟩
    refine hscalar (.number ⟨'-' :: ds, .inr ⟨ds, rfl, hds⟩⟩) hnext
      (Starts.word (.refl next) ?_)
    rw [hrest, hminus, String.toList_ofList]
    rfl
  split
  · refine On.bind (on_skipNumber next) ?_
    rintro _ more ⟨ds, rfl, hds⟩
    refine hscalar (.number ⟨ds, .inl hds⟩) hnext (Starts.word (.refl _) ?_)
    rw [String.toList_ofList]
  split
  · rename_i hquote
    refine on_skip_bind hb (by rw [hquote]; decide) fun rest hrest => ?_
    refine On.bind (on_skipString rest) ?_
    rintro _ more ⟨s, rfl⟩
    have hstart : Starts [] next ('"' :: (s.written ++ '"' :: more)) := by
      rw [hrest, hquote]
      exact .refl _
    exact hscalar (.text s) hnext (starts_quoted hstart)
  split
  · rename_i hopen
    refine on_skip_token_bind .openList hnext hb hopen (by decide) rfl fun rest hopen => ?_
    exact on_enter cs .list frames rest (h.trans hopen)
  split
  · rename_i hopen
    refine on_skip_token_bind .openObject hnext hb hopen (by decide) rfl fun rest hopen => ?_
    exact on_enter cs .object frames rest (h.trans hopen)
  · exact On.failNext (by decide)

/-- Any value may be passed over. -/
theorem takes_skipValue : skipValue.Takes fun _ => True := by
  intro cs
  refine On.loop (Pending cs) ?_ ⟨[], rfl, .refl cs⟩
  rintro stack mid ⟨frames, rfl, h⟩
  refine (on_skipStep cs frames mid h).mono ?_
  rintro out rest hout
  cases out with
  | inl stack => exact hout
  | inr u =>
    obtain ⟨v, hv⟩ := hout
    exact ⟨v, hv, trivial⟩

end Reader

end Json

end Storyboard
