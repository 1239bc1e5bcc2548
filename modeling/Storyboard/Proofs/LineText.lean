/-
Storyboard/Proofs/LineText.lean

The characters of a line.

What stands between two commas of a line is a number or a name in letters, digits and
few signs (`inField`), whatever the record: numbers that are none and times at a bound
are no exception.  Commas and quotes apart, a line has no other characters, but for the
image of a header, which is written as it is (`Record.header_line`).

So a terminator, none of whose characters stands in a line, occurs in the line of a
header only where it occurs in the image, and in other lines not at all.
-/
import Storyboard.Proofs.Chain
import Storyboard.Proofs.Cutting
import Storyboard.Proofs.LineGrammar

namespace Storyboard

open Json

/-! ### Kinds of characters -/

/-- All characters of the text are of a kind. -/
def MadeOf (kind : Char → Bool) (text : String) : Prop := ∀ c ∈ text.toList, kind c = true

instance (kind : Char → Bool) (text : String) : Decidable (MadeOf kind text) :=
  List.decidableBAll (fun c => kind c = true) text.toList

/-- A character of a number or a name: no comma, no quote and no blank. -/
def inField (c : Char) : Bool := c.isAlphanum || c == '-' || c == '.' || c == '_'

/-- A character of a line, the image apart. -/
def inLine (c : Char) : Bool := inField c || c == ',' || c == '"'

namespace MadeOf

variable {kind : Char → Bool} {s t : String}

theorem append (hs : MadeOf kind s) (ht : MadeOf kind t) : MadeOf kind (s ++ t) := by
  intro c hc
  rw [String.toList_append] at hc
  rcases List.mem_append.mp hc with hc | hc
  · exact hs c hc
  · exact ht c hc

theorem join {texts : List String} (h : ∀ text ∈ texts, MadeOf kind text) :
    MadeOf kind (String.join texts) := by
  intro c hc
  rw [String.toList_join] at hc
  obtain ⟨text, htext, hc⟩ := List.mem_flatMap.mp hc
  exact h text htext c hc

/-- What a field is made of, a line may be made of. -/
theorem line (h : MadeOf inField s) : MadeOf inLine s := by
  intro c hc
  rw [inLine, h c hc]
  rfl

end MadeOf

/-! ### Fields -/

theorem madeOf_ofList {kind : Char → Bool} {chars : List Char} (h : ∀ c ∈ chars, kind c = true) :
    MadeOf kind (String.ofList chars) := by
  rwa [MadeOf, String.toList_ofList]

theorem inField_of_isDigit {c : Char} (h : c.isDigit = true) : inField c = true := by
  rw [inField, Char.isAlphanum, h, Bool.or_true]
  rfl

theorem madeOf_digits {chars : List Char} (h : Digits chars) :
    MadeOf inField (String.ofList chars) :=
  madeOf_ofList fun c hc => inField_of_isDigit (h c hc)

theorem madeOf_nat (n : Nat) : MadeOf inField (toString n) := by
  show MadeOf inField n.repr
  rw [Nat.repr_eq_ofList_toDigits]
  exact madeOf_digits (digits_toDigits n)

theorem madeOf_int (i : Int) : MadeOf inField (toString i) := by
  cases i with
  | ofNat n => exact madeOf_nat n
  | negSucc n =>
    have hminus : MadeOf inField "-" := by decide
    exact hminus.append (madeOf_nat (n + 1))

theorem madeOf_unsignedNumber {chars : List Char} (h : UnsignedNumber chars) :
    MadeOf inField (String.ofList chars) := by
  cases h with
  | whole h => exact madeOf_digits h.digits
  | fraction h hmore =>
    apply madeOf_ofList
    intro c hc
    rcases List.mem_append.mp hc with hc | hc
    · exact inField_of_isDigit (h.digits c hc)
    · rcases List.mem_cons.mp hc with rfl | hc
      · decide
      · exact inField_of_isDigit (hmore.digits c hc)

/-- Every double has a field's characters, also one that is no number or infinite. -/
theorem Binary64.madeOf_text (x : Binary64) : MadeOf inField x.text := by
  rw [text]
  split
  · decide
  rename_i hnonzero
  rw [signedText, signText, eq_false_of_ne_true hnonzero]
  split
  · decide
  apply MadeOf.append
  · split <;> decide
  · split
    · decide
    · exact madeOf_unsignedNumber (Decimal.unsignedNumber_plain _)

theorem Param.madeOf_text (p : Param) : MadeOf inField p.text := by
  cases p with
  | number x => exact x.madeOf_text
  | integer i => exact madeOf_int i.toInt
  | flag f => cases f <;> decide

/-! ### Lines -/

namespace Record

theorem line_header (layer : Layer) (origin : Origin) (image : String) (x y : Binary64) :
    (header layer origin image x y).line = "Sprite," ++ toString layer.code ++ "," ++
      toString origin.code ++ ",\"" ++ image ++ "\"," ++ x.text ++ "," ++ y.text := rfl

theorem line_command (scope : Scope) (opcode : Opcode) (easing : Easing) (start finish : Ms)
    (params : List Param) :
    (command scope opcode easing start finish params).line = scope.indent ++ opcode.letter ++
      "," ++ toString easing.code ++ "," ++ start.text ++ "," ++ finish.text ++
        tailText params := rfl

theorem line_marker (start : Ms) (count : UInt32) :
    (marker start count).line = "_L," ++ start.text ++ "," ++ toString count.toNat := rfl

theorem madeOf_comma : MadeOf inLine "," := by decide

theorem madeOf_tailText (params : List Param) : MadeOf inLine (tailText params) := by
  apply MadeOf.join
  intro text htext
  obtain ⟨p, -, rfl⟩ := List.mem_map.mp htext
  exact madeOf_comma.append p.madeOf_text.line

/-- The line of a record that is no header. -/
theorem madeOf_line {r : Record} (h : ¬ r.IsHeader) : MadeOf inLine r.line := by
  cases r with
  | header => exact absurd trivial h
  | command scope opcode easing start finish params =>
    have hletters : MadeOf inLine (scope.indent ++ opcode.letter) := by
      cases scope <;> cases opcode <;> decide
    have heasing := (madeOf_nat easing.code).line
    have hstart := (madeOf_int start.toInt).line
    have hfinish := (madeOf_int finish.toInt).line
    exact (((((((hletters.append madeOf_comma).append heasing).append madeOf_comma).append
      hstart).append madeOf_comma).append hfinish).append (madeOf_tailText params))
  | marker start count =>
    have hletters : MadeOf inLine "_L," := by decide
    exact ((hletters.append (madeOf_int start.toInt).line).append madeOf_comma).append
      (madeOf_nat count.toNat).line

/-- The line of a header is its image between characters of a line. -/
theorem header_line (layer : Layer) (origin : Origin) (image : String) (x y : Binary64) :
    ∃ front back, (header layer origin image x y).line = front ++ (image ++ back) ∧
      MadeOf inLine front ∧ MadeOf inLine back := by
  have hname : MadeOf inLine "Sprite," := by decide
  have hopening : MadeOf inLine ",\"" := by decide
  have hclosing : MadeOf inLine "\"," := by decide
  refine ⟨"Sprite," ++ toString layer.code ++ "," ++ toString origin.code ++ ",\"",
    "\"," ++ x.text ++ "," ++ y.text, ?_, ?_, ?_⟩
  · simp only [line_header, String.append_assoc]
  · exact (((hname.append (madeOf_nat layer.code).line).append madeOf_comma).append
      (madeOf_nat origin.code).line).append hopening
  · exact ((hclosing.append x.madeOf_text.line).append madeOf_comma).append y.madeOf_text.line

/-- No line is empty. -/
theorem line_ne_empty (r : Record) : r.line ≠ "" := by
  have hfront {front : String} (hne : front ≠ "") (back : String) : front ++ back ≠ "" :=
    fun h => hne (String.append_eq_empty_iff.mp h).1
  cases r with
  | header layer origin image x y =>
    simp only [line_header, String.append_assoc]
    exact hfront (by decide) _
  | command scope opcode easing start finish params =>
    simp only [line_command, String.append_assoc]
    apply hfront
    cases scope <;> decide
  | marker start count =>
    simp only [line_marker, String.append_assoc]
    exact hfront (by decide) _

end Record

/-! ### Terminators -/

/-- What occurs in a text, but shares no character with its front, occurs behind the front. -/
theorem infix_of_disjoint_front {found front back : List Char} (hne : found ≠ [])
    (hfront : ∀ c ∈ found, c ∉ front) (h : found <:+: front ++ back) : found <:+: back := by
  induction front with
  | nil => exact h
  | cons d ds ih =>
    rw [List.cons_append, List.infix_cons_iff] at h
    have hrest : ∀ c ∈ found, c ∉ ds := fun c hc hds => hfront c hc (List.mem_cons_of_mem d hds)
    rcases h with hprefix | hinfix
    · -- it would begin with the first character of the front
      obtain ⟨c, cs, rfl⟩ := List.exists_cons_of_ne_nil hne
      obtain ⟨rfl, -⟩ := List.cons_prefix_cons.mp hprefix
      exact absurd List.mem_cons_self (hfront c List.mem_cons_self)
    · exact ih hrest hinfix

namespace LineEnding

variable {ending : LineEnding}

theorem not_inLine {c : Char} (hc : c ∈ ending.text.toList) : inLine c = false := by
  have hall : ending.text.toList.all (fun d => inLine d == false) = true := by
    cases ending <;> decide
  exact beq_iff_eq.mp (List.all_eq_true.mp hall c hc)

/-- A terminator that occurs between characters of a line occurs in the text between them. -/
theorem OccursIn.between {front text back : String} (hfront : MadeOf inLine front)
    (hback : MadeOf inLine back) (h : ending.OccursIn (front ++ (text ++ back))) :
    ending.OccursIn text := by
  have hdisjoint {s : String} (hs : MadeOf inLine s) {c : Char} (hc : c ∈ ending.text.toList) :
      c ∉ s.toList := by
    intro hmem
    exact absurd (hs c hmem) (not_inLine hc ▸ Bool.false_ne_true)
  rw [OccursIn, String.toList_append, String.toList_append] at h
  have hbehind := infix_of_disjoint_front ending.text_ne_nil (fun _ => hdisjoint hfront) h
  -- from the other end, the back is a front
  rw [← List.reverse_infix, List.reverse_append] at hbehind
  have hbefore := infix_of_disjoint_front (List.reverse_ne_nil_iff.mpr ending.text_ne_nil)
    (fun c hc hmem => hdisjoint hback (List.mem_reverse.mp hc) (List.mem_reverse.mp hmem)) hbehind
  exact List.reverse_infix.mp hbefore

/-- No terminator occurs among the characters of a line. -/
theorem not_occursIn_of_madeOf {text : String} (h : MadeOf inLine text) :
    ¬ ending.OccursIn text :=
  not_occursIn_of_newline fun hnewline => absurd (h '\n' hnewline) (by decide)

/-- A terminator occurs in the line of a record only where it occurs in a header's image. -/
theorem OccursIn.line {r : Record} (h : ending.OccursIn r.line) :
    ∃ layer origin image x y, r = .header layer origin image x y ∧ ending.OccursIn image := by
  cases r with
  | header layer origin image x y =>
    obtain ⟨front, back, hline, hfront, hback⟩ := Record.header_line layer origin image x y
    rw [hline] at h
    exact ⟨layer, origin, image, x, y, rfl, h.between hfront hback⟩
  | command scope opcode easing start finish params =>
    exact absurd h (not_occursIn_of_madeOf (Record.madeOf_line id))
  | marker start count =>
    exact absurd h (not_occursIn_of_madeOf (Record.madeOf_line id))

end LineEnding

end Storyboard
