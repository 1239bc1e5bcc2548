/-
Storyboard/Proofs/LineFields.lean

What a line tells of its record.

A line is a list of pieces with commas between them, and no piece has a comma in it.  So
the pieces are found again by cutting the line at its commas, whichever record it is the
line of (`Record.splitOn_line`), and they tell the fields, one by one, of a command and of
a marker.

An image may hold commas, and quotes as well, so there is no telling from the line of a
header alone where the image ends.  It makes up as many pieces as it likes, but three
stand before it and two behind it.  Counted from both ends (`Record.headerFields?`) they
give back the image and the coordinates.

Main result: `lines_are_unambiguous`.
-/
import Storyboard.Proofs.LineText

namespace Storyboard

open Json

/-! ### Codes and letters -/

theorem Layer.code_inj {l l' : Layer} (h : l.code = l'.code) : l = l' := by
  have hcode (l : Layer) : Layer.all[l.code]? = some l := by cases l <;> rfl
  exact Option.some.inj ((hcode l).symm.trans (h ▸ hcode l'))

theorem Origin.code_inj {o o' : Origin} (h : o.code = o'.code) : o = o' := by
  have hcode (o : Origin) : Origin.all[o.code]? = some o := by cases o <;> rfl
  exact Option.some.inj ((hcode o).symm.trans (h ▸ hcode o'))

theorem Easing.code_inj {e e' : Easing} (h : e.code = e'.code) : e = e' :=
  Option.some.inj ((ofCode?_code e).symm.trans (h ▸ ofCode?_code e'))

/-- The letters that begin a command. -/
def Opcode.letters (scope : Scope) (opcode : Opcode) : String := scope.indent ++ opcode.letter

theorem Opcode.letters_inj {s s' : Scope} {o o' : Opcode} (h : o.letters s = o'.letters s') :
    s = s' ∧ o = o' := by
  revert h
  cases s <;> cases s' <;> cases o <;> cases o' <;> decide

/-- No command begins as a marker does, or as a header does. -/
theorem Opcode.letters_ne (s : Scope) (o : Opcode) :
    o.letters s ≠ "_L" ∧ o.letters s ≠ "Sprite" := by
  cases s <;> cases o <;> decide

theorem natText_inj {m n : Nat} (h : toString m = toString n) : m = n := by
  have hdigits : Nat.toDigits 10 m = Nat.toDigits 10 n := by
    rw [Nat.toString_eq_ofList_toDigits, Nat.toString_eq_ofList_toDigits] at h
    exact String.ofList_inj.mp h
  rw [← Nat.ofDigitChars_ten_toDigits (n := m), hdigits, Nat.ofDigitChars_ten_toDigits]

theorem intText_inj {i j : Int} (h : toString i = toString j) : i = j := by
  -- a number without a sign begins with a digit
  have hsign {m n : Nat} : toString (Int.ofNat m) ≠ toString (Int.negSucc n) := by
    intro h
    have hmem : '-' ∈ (toString (Int.negSucc n)).toList := by
      show '-' ∈ ("-" ++ toString (n + 1)).toList
      simp
    rw [← h] at hmem
    change '-' ∈ (toString m).toList at hmem
    rw [Nat.toString_eq_ofList_toDigits, String.toList_ofList] at hmem
    exact absurd (digits_toDigits m '-' hmem) (by decide)
  cases i with
  | ofNat m =>
    cases j with
    | ofNat n => exact congrArg Int.ofNat (natText_inj h)
    | negSucc n => exact absurd h hsign
  | negSucc m =>
    cases j with
    | ofNat n => exact absurd h.symm hsign
    | negSucc n =>
      have hdigits : "-" ++ toString (m + 1) = "-" ++ toString (n + 1) := h
      rw [String.append_right_inj] at hdigits
      exact congrArg Int.negSucc (Nat.succ.inj (natText_inj hdigits))

theorem Ms.text_inj {a b : Ms} (h : a.text = b.text) : a = b := Ms.ext (intText_inj h)

theorem Ms.madeOf_text (a : Ms) : MadeOf inField a.text := madeOf_int a.toInt

/-! ### Pieces -/

theorem MadeOf.comma_not_mem {text : String} (h : MadeOf inField text) : ',' ∉ text.toList := by
  intro hmem
  exact absurd (h ',' hmem) (by decide)

namespace Record

/-- An image as it stands in a line. -/
def quoted (image : String) : List Char := '"' :: (image.toList ++ ['"'])

/-- What stands between the commas of a line. -/
def pieces : Record → List (List Char)
  | header layer origin image x y =>
    ["Sprite".toList, (toString layer.code).toList, (toString origin.code).toList] ++
      ((quoted image).splitOn ',' ++ [x.text.toList, y.text.toList])
  | command scope opcode easing start finish params =>
    [(opcode.letters scope).toList, (toString easing.code).toList, start.text.toList] ++
      finish.text.toList :: params.map fun p => p.text.toList
  | marker start count => ["_L".toList, start.text.toList, (toString count.toNat).toList]

/-- A piece at the end of a line. -/
theorem splitOn_field {text : String} (h : MadeOf inField text) :
    text.toList.splitOn ',' = [text.toList] := by
  have hcomma : ∀ chars ∈ [text.toList], ',' ∉ chars := by simpa using h.comma_not_mem
  have hwhole := List.splitOn_intercalate ',' hcomma (List.cons_ne_nil _ _)
  rwa [List.intercalate_singleton] at hwhole

/-- A piece with a comma behind it. -/
theorem splitOn_field_comma {text : String} (h : MadeOf inField text) (rest : List Char) :
    (text.toList ++ ',' :: rest).splitOn ',' = text.toList :: rest.splitOn ',' :=
  List.splitOn_append_cons_self_of_not_mem h.comma_not_mem rest

theorem splitOn_tailText {text : String} (h : MadeOf inField text) (params : List Param) :
    (text.toList ++ (tailText params).toList).splitOn ',' =
      text.toList :: params.map fun p => p.text.toList := by
  induction params generalizing text with
  | nil =>
    rw [show (tailText []).toList = [] from rfl, List.append_nil, splitOn_field h]
    rfl
  | cons p params ih =>
    have htail : (tailText (p :: params)).toList =
        ',' :: (p.text.toList ++ (tailText params).toList) := by
      rw [tailText, List.map_cons, String.join_cons, String.toList_append, String.toList_append]
      rfl
    rw [htail, splitOn_field_comma h, ih p.madeOf_text, List.map_cons]

/-- **The pieces of a line are between its commas.** -/
theorem splitOn_line (r : Record) : r.line.toList.splitOn ',' = r.pieces := by
  cases r with
  | header layer origin image x y =>
    have hname : MadeOf inField "Sprite" := by decide
    have hchars : (header layer origin image x y).line.toList =
        "Sprite".toList ++ ',' :: ((toString layer.code).toList ++ ',' ::
          ((toString origin.code).toList ++ ',' :: (quoted image ++ ',' ::
            (x.text.toList ++ ',' :: y.text.toList)))) := by
      simp [line_header, quoted]
    rw [hchars, splitOn_field_comma hname, splitOn_field_comma (madeOf_nat _),
      splitOn_field_comma (madeOf_nat _), List.splitOn_append_cons_self,
      splitOn_field_comma x.madeOf_text, splitOn_field y.madeOf_text]
    rfl
  | command scope opcode easing start finish params =>
    have hletters : MadeOf inField (opcode.letters scope) := by
      cases scope <;> cases opcode <;> decide
    have hchars : (command scope opcode easing start finish params).line.toList =
        (opcode.letters scope).toList ++ ',' :: ((toString easing.code).toList ++ ',' ::
          (start.text.toList ++ ',' :: (finish.text.toList ++ (tailText params).toList))) := by
      simp [line_command, Opcode.letters]
    rw [hchars, splitOn_field_comma hletters, splitOn_field_comma (madeOf_nat _),
      splitOn_field_comma start.madeOf_text, splitOn_tailText finish.madeOf_text]
    rfl
  | marker start count =>
    have hname : MadeOf inField "_L" := by decide
    have hchars : (marker start count).line.toList =
        "_L".toList ++ ',' :: (start.text.toList ++ ',' :: (toString count.toNat).toList) := by
      simp [line_marker]
    rw [hchars, splitOn_field_comma hname, splitOn_field_comma start.madeOf_text,
      splitOn_field (madeOf_nat _)]
    rfl

theorem pieces_eq_of_line {r r' : Record} (h : r.line = r'.line) : r.pieces = r'.pieces := by
  rw [← splitOn_line, ← splitOn_line, h]

/-! ### Records by their lines -/

/-- Records of the same kind that agree in all fields, numbers by their text. -/
inductive Agrees : Record → Record → Prop
  | header (layer : Layer) (origin : Origin) (image : String) {x x' y y' : Binary64}
      (hx : x.text = x'.text) (hy : y.text = y'.text) :
      Agrees (header layer origin image x y) (header layer origin image x' y')
  | command (scope : Scope) (opcode : Opcode) (easing : Easing) (start finish : Ms)
      {params params' : List Param} (h : params.map Param.text = params'.map Param.text) :
      Agrees (command scope opcode easing start finish params)
        (command scope opcode easing start finish params')
  | marker (start : Ms) (count : UInt32) : Agrees (marker start count) (marker start count)

theorem Agrees.line_eq {r r' : Record} (h : Agrees r r') : r.line = r'.line := by
  cases h with
  | header layer origin image hx hy => rw [line_header, line_header, hx, hy]
  | @command scope opcode easing start finish params params' h =>
    have htail : tailText params = tailText params' := by
      have hmap (ps : List Param) :
          tailText ps = String.join ((ps.map Param.text).map fun text => "," ++ text) := by
        rw [tailText, List.map_map]
        rfl
      rw [hmap, hmap, h]
    rw [line_command, line_command, htail]
  | marker start count => rfl

theorem quoted_inj {image image' : String} (h : quoted image = quoted image') :
    image = image' := by
  have hchars := List.append_cancel_right (List.cons_inj_right _ |>.mp h)
  exact String.toList_inj.mp hchars

section Fields

variable {layer layer' : Layer} {origin origin' : Origin} {image image' : String}
  {x x' y y' : Binary64} {scope scope' : Scope} {opcode opcode' : Opcode} {easing easing' : Easing}
  {start start' finish finish' : Ms} {params params' : List Param} {count count' : UInt32}

theorem agrees_of_header_pieces
    (h : (header layer origin image x y).pieces = (header layer' origin' image' x' y').pieces) :
    Agrees (header layer origin image x y) (header layer' origin' image' x' y') := by
  simp only [pieces, List.cons_append, List.nil_append, List.cons.injEq, true_and,
    String.toList_inj] at h
  obtain ⟨hlayer, horigin, hrest⟩ := h
  -- the lengths by their own lemmas, for the numbers are not to be compared
  obtain ⟨himage, hnumbers⟩ := List.append_inj' hrest (by simp only [List.length_cons])
  simp only [List.cons.injEq, and_true, String.toList_inj] at hnumbers
  have hquoted := congrArg (List.intercalate [',']) himage
  rw [List.intercalate_splitOn, List.intercalate_splitOn] at hquoted
  cases quoted_inj hquoted
  cases Layer.code_inj (natText_inj hlayer)
  cases Origin.code_inj (natText_inj horigin)
  exact .header layer origin image hnumbers.1 hnumbers.2

theorem agrees_of_command_pieces
    (h : (command scope opcode easing start finish params).pieces =
      (command scope' opcode' easing' start' finish' params').pieces) :
    Agrees (command scope opcode easing start finish params)
      (command scope' opcode' easing' start' finish' params') := by
  simp only [pieces, List.cons_append, List.nil_append, List.cons.injEq, String.toList_inj] at h
  obtain ⟨hletters, heasing, hstart, hfinish, hparams⟩ := h
  obtain ⟨rfl, rfl⟩ := Opcode.letters_inj hletters
  cases Easing.code_inj (natText_inj heasing)
  cases Ms.text_inj hstart
  cases Ms.text_inj hfinish
  have htexts := congrArg (List.map String.ofList) hparams
  simp only [List.map_map, Function.comp_def, String.ofList_toList] at htexts
  exact .command scope opcode easing start finish htexts

theorem agrees_of_marker_pieces
    (h : (marker start count).pieces = (marker start' count').pieces) :
    Agrees (marker start count) (marker start' count') := by
  simp only [pieces, List.cons.injEq, and_true, true_and, String.toList_inj] at h
  cases Ms.text_inj h.1
  cases UInt32.toNat_inj.mp (natText_inj h.2)
  exact .marker start count

end Fields

/-- The first piece of a line. -/
def name : Record → String
  | header .. => "Sprite"
  | command scope opcode .. => opcode.letters scope
  | marker .. => "_L"

theorem head_pieces (r : Record) : r.pieces.head? = some r.name.toList := by
  cases r <;> rfl

/-- The first piece tells the kind of a record, and the others its fields. -/
theorem agrees_of_pieces_eq {r r' : Record} (h : r.pieces = r'.pieces) : Agrees r r' := by
  have hname : r.name = r'.name := by
    have hhead := (head_pieces r).symm.trans ((congrArg List.head? h).trans (head_pieces r'))
    exact String.toList_inj.mp (Option.some.inj hhead)
  have hmarker : "Sprite" ≠ "_L" := by decide
  cases r with
  | header =>
    cases r' with
    | header => exact agrees_of_header_pieces h
    | command => exact absurd hname.symm (Opcode.letters_ne _ _).2
    | marker => exact absurd hname hmarker
  | command =>
    cases r' with
    | header => exact absurd hname (Opcode.letters_ne _ _).2
    | command => exact agrees_of_command_pieces h
    | marker => exact absurd hname (Opcode.letters_ne _ _).1
  | marker =>
    cases r' with
    | header => exact absurd hname.symm hmarker
    | command => exact absurd hname.symm (Opcode.letters_ne _ _).1
    | marker => exact agrees_of_marker_pieces h

/-! ### Headers from both ends -/

/-- The image of a header and the texts of its coordinates. -/
def headerFields : Record → Option (String × String × String)
  | header _ _ image x y => some (image, x.text, y.text)
  | command .. => none
  | marker .. => none

/-- What the line of a header has behind its third comma: the image up to the last comma
but one, without its quotes, and the coordinates.  Other lines have no such fields. -/
def headerFields? (line : String) : Option (String × String × String) :=
  match line.toList.splitOn ',' with
  | name :: _ :: _ :: rest =>
    if name = "Sprite".toList then
      match rest.reverse with
      | y :: x :: image =>
        some (String.ofList ([','].intercalate image.reverse).tail.dropLast, String.ofList x,
          String.ofList y)
      | _ => none
    else none
  | _ => none

theorem headerFields?_line (r : Record) : headerFields? r.line = r.headerFields := by
  rw [headerFields?, splitOn_line]
  cases r with
  | header layer origin image x y =>
    simp only [pieces, List.cons_append, List.nil_append, if_true, List.reverse_append,
      List.reverse_cons, List.reverse_nil, List.reverse_reverse, List.intercalate_splitOn, quoted,
      List.tail_cons, List.dropLast_concat, String.ofList_toList]
    rfl
  | command scope opcode easing start finish params =>
    have hname : (opcode.letters scope).toList ≠ "Sprite".toList :=
      fun h => (opcode.letters_ne scope).2 (String.toList_inj.mp h)
    simp only [pieces, List.cons_append, List.nil_append, if_neg hname]
    rfl
  | marker start count => rfl

end Record

/-! ### The theorem -/

/-- **Lines are unambiguous.**  Two records have the same line exactly if they are of the
same kind and agree in all fields, numbers by their text.  The line of a header gives back
the image, whatever its characters, and both coordinates, and no other line looks like the
line of a header.  No command has the line of a marker or of a header. -/
theorem lines_are_unambiguous :
    (∀ r r' : Record, r.line = r'.line ↔ r.Agrees r') ∧
    (∀ r : Record, Record.headerFields? r.line = r.headerFields) ∧
    ∀ scope opcode easing start finish params,
      let line := (Record.command scope opcode easing start finish params).line
      (∀ start count, line ≠ (Record.marker start count).line) ∧
      ∀ layer origin image x y, line ≠ (Record.header layer origin image x y).line := by
  have hagrees {r r' : Record} (h : r.line = r'.line) : r.Agrees r' :=
    Record.agrees_of_pieces_eq (Record.pieces_eq_of_line h)
  refine ⟨fun r r' => ⟨hagrees, Record.Agrees.line_eq⟩, Record.headerFields?_line, ?_⟩
  intro scope opcode easing start finish params line
  exact ⟨fun _ _ h => (nomatch hagrees h), fun _ _ _ _ _ h => (nomatch hagrees h)⟩

/-- An image that holds quotes and commas of its own. -/
example :
    Record.headerFields? (Record.header .pass .centre "a\",1,2" (.ofNat 3) (.ofNat 4)).line =
      some ("a\",1,2", "3", "4") := by decide +kernel

end Storyboard
