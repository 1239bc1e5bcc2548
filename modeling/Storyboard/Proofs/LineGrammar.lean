/-
Storyboard/Proofs/LineGrammar.lean

The grammar of storyboard lines.

The grammar (`EventLine`) is about texts alone.  A line is a header, a loop marker,
or a command with exactly the parameters that its letter asks for; a number in it is
a plain decimal, which has neither an exponent nor a name for what is no number.

Records are not lines yet: a command record takes any list of parameters, and a
parameter may be infinite.  `Record.WellFormed` says what is asked of the data, and
the result is that this is enough (`eventLine_of_wellFormed`): the line of a
well-formed record is a line of the grammar.
-/
import Storyboard.Proofs.FiniteNumbers
import Storyboard.Proofs.Score

namespace Storyboard

open Json

/-! ### Numbers -/

/-- One or more decimal digits. -/
structure DigitRun (chars : List Char) : Prop where
  nonempty : chars ≠ []
  digits : Digits chars

/-- Digits, with or without a point and digits after them. -/
inductive UnsignedNumber : List Char → Prop
  | whole {digits : List Char} (h : DigitRun digits) : UnsignedNumber digits
  | fraction {digits more : List Char} (h : DigitRun digits) (hmore : DigitRun more) :
      UnsignedNumber (digits ++ '.' :: more)

/-- A plain decimal: a number with or without a minus before it. -/
inductive PlainNumber : String → Prop
  | positive {chars : List Char} (h : UnsignedNumber chars) : PlainNumber (String.ofList chars)
  | negative {chars : List Char} (h : UnsignedNumber chars) :
      PlainNumber ("-" ++ String.ofList chars)

/-- A channel of a color. -/
inductive ByteText : String → Prop
  | byte {n : Nat} (h : n ≤ 255) : ByteText (toString n)

/-! ### Lines -/

/-- What stands for the parameters of a command with this letter. -/
inductive ParameterTexts : String → List String → Prop
  | pair {letter : String} {texts : List String} (hletter : letter ∈ ["F", "S", "R"])
      (hcount : texts.length = 2) (h : ∀ text ∈ texts, PlainNumber text) :
      ParameterTexts letter texts
  | positions {texts : List String} (hcount : texts.length = 4)
      (h : ∀ text ∈ texts, PlainNumber text) : ParameterTexts "M" texts
  | colors {texts : List String} (hcount : texts.length = 6) (h : ∀ text ∈ texts, ByteText text) :
      ParameterTexts "C" texts
  | flag {text : String} (h : text ∈ ["H", "V", "A"]) : ParameterTexts "P" [text]

/-- A line of a storyboard document. -/
inductive EventLine : String → Prop
  | header {layer origin : Nat} (hlayer : layer ≤ 4) (horigin : origin ≤ 8) (image : String)
      {x y : String} (hx : PlainNumber x) (hy : PlainNumber y) :
      EventLine ("Sprite," ++ toString layer ++ "," ++ toString origin ++ ",\"" ++ image ++
        "\"," ++ x ++ "," ++ y)
  | marker {start : Int} (hstart : Fits start) {count : Nat} (hcount : count < 0x100000000) :
      EventLine ("_L," ++ toString start ++ "," ++ toString count)
  | command {indent letter : String} (hindent : indent ∈ ["_", "__"]) {easing : Nat}
      (heasing : easing ≤ 34) {start finish : Int} (hstart : Fits start)
      (hfinish : Fits finish) {texts : List String} (h : ParameterTexts letter texts) :
      EventLine (indent ++ letter ++ "," ++ toString easing ++ "," ++ toString start ++
        "," ++ toString finish ++ String.join (texts.map fun text => "," ++ text))

/-! ### Records of such lines -/

/-- The parameters are those that the command asks for: the way from one value of a
channel to another one, or a flag. -/
inductive Opcode.Takes : Opcode → List Param → Prop
  | path {s t : Setting} (hchannel : s.channel = t.channel) (hs : AllFinite s.numbers)
      (ht : AllFinite t.numbers) : Takes t.channel.opcode (s.params ++ t.params)
  | flag (f : Flag) : Takes .parameter [.flag f]

/-- The record has a line in the grammar. -/
inductive Record.WellFormed : Record → Prop
  | header (layer : Layer) (origin : Origin) (image : String) {x y : Binary64}
      (hx : x.isFinite = true) (hy : y.isFinite = true) : WellFormed (.header layer origin image x y)
  | command (scope : Scope) {opcode : Opcode} (easing : Easing) (start finish : Ms)
      {params : List Param} (h : opcode.Takes params) :
      WellFormed (.command scope opcode easing start finish params)
  | marker (start : Ms) (count : UInt32) : WellFormed (.marker start count)

/-! ### Numbers are plain -/

theorem digitRun_toDigits (n : Nat) : DigitRun (Nat.toDigits 10 n) :=
  ⟨Nat.toDigits_ne_nil, digits_toDigits n⟩

theorem digits_zeros (n : Nat) : Digits (List.replicate n '0') := by
  intro c hc
  rw [List.eq_of_mem_replicate hc]
  rfl

theorem digits_append {cs ds : List Char} (hcs : Digits cs) (hds : Digits ds) :
    Digits (cs ++ ds) := by
  intro c hc
  rcases List.mem_append.mp hc with hc | hc
  · exact hcs c hc
  · exact hds c hc

/-- Positional notation has digits on both sides of the point, if it has a point. -/
theorem Decimal.unsignedNumber_plain (d : Decimal) : UnsignedNumber d.plain := by
  have hdigits := digits_toDigits d.digits
  have hlength : 0 < (Nat.toDigits 10 d.digits).length := Nat.length_toDigits_pos
  rw [plain]
  generalize Nat.toDigits 10 d.digits = digits at hdigits hlength
  simp only
  split
  · rename_i zeros _
    refine .whole ⟨?_, digits_append hdigits (digits_zeros zeros)⟩
    rw [← List.length_pos_iff, List.length_append]
    omega
  · rename_i n _
    -- zeros in front make room for one digit before the point
    have hpadded : Digits (List.replicate (n + 2 - digits.length) '0' ++ digits) :=
      digits_append (digits_zeros _) hdigits
    have hroom : n + 2 ≤ (List.replicate (n + 2 - digits.length) '0' ++ digits).length := by
      rw [List.length_append, List.length_replicate]
      omega
    generalize List.replicate (n + 2 - digits.length) '0' ++ digits = padded at hpadded hroom
    refine .fraction ⟨?_, fun c hc => hpadded c (List.mem_of_mem_take hc)⟩
      ⟨?_, fun c hc => hpadded c (List.mem_of_mem_drop hc)⟩
    · rw [← List.length_pos_iff, List.length_take]
      omega
    · rw [← List.length_pos_iff, List.length_drop]
      omega

/-- A finite number other than zero is written with its sign and its shortest digits. -/
theorem Binary64.text_of_finite {x : Binary64} (h : x.isFinite = true)
    (hnonzero : x.isZero = false) :
    x.text = x.signText ++ String.ofList (x.shortest .up).plain := by
  have hlt : x.magnitude.val < infinity := isFinite_iff.mp h
  have hnan : x.isNaN = false := decide_eq_false (Nat.lt_asymm hlt)
  have hinfinite : x.isInfinite = false := beq_eq_false_iff_ne.mpr (Nat.ne_of_lt hlt)
  rw [text, signedText, hnan, hinfinite, hnonzero]
  rfl

/-- A finite number is written as a plain decimal. -/
theorem Binary64.plainNumber_text {x : Binary64} (h : x.isFinite = true) : PlainNumber x.text := by
  have hzero : PlainNumber "0" := .positive (.whole (digitRun_toDigits 0))
  cases hnonzero : x.isZero with
  | true =>
    rw [text, if_pos hnonzero]
    exact hzero
  | false =>
    have hplain := (x.shortest .up).unsignedNumber_plain
    rw [text_of_finite h hnonzero, signText]
    split
    · exact .negative hplain
    · rw [String.empty_append]
      exact .positive hplain

/-! ### The fields of a line -/

theorem Layer.code_le (l : Layer) : l.code ≤ 4 := by cases l <;> decide

theorem Origin.code_le (o : Origin) : o.code ≤ 8 := by cases o <;> decide

theorem Easing.code_le (e : Easing) : e.code ≤ 34 := Nat.le_of_lt_succ e.code_lt

theorem Ms.fits_toInt (a : Ms) : Fits a.toInt := ⟨a.lower, a.upper⟩

theorem Scope.indent_mem (s : Scope) : s.indent ∈ ["_", "__"] := by cases s <;> decide

theorem Flag.letter_mem (f : Flag) : f.letter ∈ ["H", "V", "A"] := by cases f <;> decide

theorem Param.byteText_byte (b : UInt8) : ByteText (byte b).text := by
  have hlt : b.toNat < 256 := b.toNat_lt
  have hvalue : (Ms.clamp b.toNat).toInt = (b.toNat : Int) := by
    rw [Ms.toInt_clamp]
    omega
  show ByteText (toString (Ms.clamp b.toNat).toInt)
  rw [hvalue]
  exact .byte (Nat.le_of_lt_succ hlt)

theorem plainNumber_of_mem_texts {xs : List Binary64} (h : AllFinite xs) :
    ∀ text ∈ (xs.map Param.number).map Param.text, PlainNumber text := by
  intro text htext
  rw [List.map_map] at htext
  obtain ⟨x, hx, rfl⟩ := List.mem_map.mp htext
  exact Binary64.plainNumber_text (h x hx)

theorem byteText_of_mem_texts (bs : List UInt8) :
    ∀ text ∈ (bs.map Param.byte).map Param.text, ByteText text := by
  intro text htext
  rw [List.map_map] at htext
  obtain ⟨b, -, rfl⟩ := List.mem_map.mp htext
  exact Param.byteText_byte b

/-! ### Lines of well-formed records -/

theorem Opcode.Takes.parameterTexts {opcode : Opcode} {params : List Param}
    (h : opcode.Takes params) : ParameterTexts opcode.letter (params.map Param.text) := by
  cases h with
  | flag f => exact .flag f.letter_mem
  | @path s t hchannel hs ht =>
    have hnumbers := plainNumber_of_mem_texts (hs.append ht)
    -- the value that the way starts from is one of the same channel
    cases t with
    | transparency b =>
      cases s with
      | transparency a => exact .pair (.head _) rfl hnumbers
      | _ => cases hchannel
    | position c d =>
      cases s with
      | position a b => exact .positions rfl hnumbers
      | _ => cases hchannel
    | size b =>
      cases s with
      | size a => exact .pair (.tail _ (.head _)) rfl hnumbers
      | _ => cases hchannel
    | rotation b =>
      cases s with
      | rotation a => exact .pair (.tail _ (.tail _ (.head _))) rfl hnumbers
      | _ => cases hchannel
    | color d =>
      cases s with
      | color c => exact .colors rfl (byteText_of_mem_texts [c.r, c.g, c.b, d.r, d.g, d.b])
      | _ => cases hchannel

/-- The line of a well-formed record is a line of the grammar. -/
theorem eventLine_of_wellFormed {r : Record} (h : r.WellFormed) : EventLine r.line := by
  cases h with
  | header layer origin image hx hy =>
    exact .header layer.code_le origin.code_le image (Binary64.plainNumber_text hx)
      (Binary64.plainNumber_text hy)
  | marker start count => exact .marker start.fits_toInt count.toNat_lt
  | @command scope opcode easing start finish params h =>
    have hline := EventLine.command scope.indent_mem easing.code_le start.fits_toInt finish.fits_toInt
      h.parameterTexts
    rw [List.map_map] at hline
    exact hline

end Storyboard
