/-
Storyboard/Proofs/Cutting.lean

Cutting a text at a terminator.

`cutAt` looks for the terminator from left to right.  It finds the end of a line
where the line was ended, if the terminator stands nowhere else in it; and it does
not: not inside the line, where it is excluded, and not across its end, because no
terminator begins with an end of itself (`Unbordered`).  So lines that were each
ended by a terminator come back one by one (`cutAt_ended`).

On documents, `LineEnding.cut` gives the lines, and `LineEnding.blocks` the groups of
lines between the section header and the last line that empty lines separate.
-/
import Storyboard.EventsText

namespace Storyboard

/-! ### Cutting -/

/-- The pieces of a text that a terminator ends, and what stands after the last of them.
The first `skip` characters belong to a terminator that was found before. -/
def cutFrom (terminator : List Char) : (skip : Nat) → List Char → List (List Char) × List Char
  | _, [] => ([], [])
  | skip + 1, _ :: rest => cutFrom terminator skip rest
  | 0, c :: rest =>
    if terminator <+: c :: rest then
      let tail := cutFrom terminator (terminator.length - 1) rest
      ([] :: tail.1, tail.2)
    else
      match cutFrom terminator 0 rest with
      | ([], last) => ([], c :: last)
      | (piece :: pieces, last) => ((c :: piece) :: pieces, last)

/-- The pieces of a text that a terminator ends, and what stands after the last of them. -/
def cutAt (terminator text : List Char) : List (List Char) × List Char :=
  cutFrom terminator 0 text

/-- No beginning of the text is also an end of it, but for the text itself and nothing. -/
def Unbordered (text : List Char) : Prop :=
  ∀ front back, text = front ++ back → front ≠ [] → back ≠ [] → ¬ back <+: text

section Cut

variable {terminator : List Char}

/-- What belongs to the terminator before is left out. -/
theorem cutFrom_length (front rest : List Char) :
    cutFrom terminator front.length (front ++ rest) = cutAt terminator rest := by
  induction front with
  | nil => rfl
  | cons c cs ih =>
    rw [List.length_cons, List.cons_append, cutFrom, ih]

/-- A terminator in front ends an empty piece. -/
theorem cutAt_terminator (hterminator : terminator ≠ []) (rest : List Char) :
    cutAt terminator (terminator ++ rest) =
      ([] :: (cutAt terminator rest).1, (cutAt terminator rest).2) := by
  obtain ⟨c, cs, rfl⟩ := List.exists_cons_of_ne_nil hterminator
  have hfront : c :: cs <+: c :: (cs ++ rest) := List.prefix_append (c :: cs) rest
  have hskipped : cutFrom (c :: cs) cs.length (cs ++ rest) = cutAt (c :: cs) rest :=
    cutFrom_length cs rest
  rw [List.cons_append, cutAt, cutFrom, if_pos hfront, List.length_cons, Nat.add_sub_cancel,
    hskipped]

/-- A character with which no terminator begins belongs to the first piece. -/
theorem cutAt_cons {c : Char} {text : List Char} (h : ¬ terminator <+: c :: text)
    {piece : List Char} {pieces : List (List Char)} {last : List Char}
    (htext : cutAt terminator text = (piece :: pieces, last)) :
    cutAt terminator (c :: text) = ((c :: piece) :: pieces, last) := by
  rw [cutAt] at htext
  rw [cutAt, cutFrom, if_neg h, htext]

/-- No terminator begins inside a line that does not contain it, not even one that would
reach across the end of the line. -/
theorem not_prefix_of_unbordered (hunbordered : Unbordered terminator) {line : List Char}
    (hline : ¬ terminator <:+: line) (hne : line ≠ []) (rest : List Char) :
    ¬ terminator <+: line ++ (terminator ++ rest) := by
  intro h
  rcases Nat.le_total terminator.length line.length with hle | hle
  · -- it ends inside the line
    have hprefix := List.prefix_of_prefix_length_le h (List.prefix_append line _) hle
    exact hline hprefix.isInfix
  · -- it begins with the line, and the other end of it begins the next terminator
    obtain ⟨back, hback⟩ := List.prefix_of_prefix_length_le (List.prefix_append line _) h hle
    have hnext : back <+: terminator ++ rest := by
      have hwhole : line ++ back <+: line ++ (terminator ++ rest) := hback.symm ▸ h
      exact (List.prefix_append_right_inj line).mp hwhole
    have hborder : back <+: terminator := by
      refine List.prefix_of_prefix_length_le hnext (List.prefix_append terminator rest) ?_
      rw [← hback, List.length_append]
      omega
    by_cases hnone : back = []
    · rw [hnone, List.append_nil] at hback
      exact hline (hback ▸ List.infix_refl line)
    · exact hunbordered line back hback.symm hne hnone hborder

/-- A line comes back without its terminator. -/
theorem cutAt_line (hterminator : terminator ≠ []) (hunbordered : Unbordered terminator)
    {line : List Char} (hline : ¬ terminator <:+: line) (rest : List Char) :
    cutAt terminator (line ++ (terminator ++ rest)) =
      (line :: (cutAt terminator rest).1, (cutAt terminator rest).2) := by
  induction line with
  | nil => exact cutAt_terminator hterminator rest
  | cons c cs ih =>
    have hcs : ¬ terminator <:+: cs := fun h => hline (List.infix_cons h)
    exact cutAt_cons (not_prefix_of_unbordered hunbordered hline (List.cons_ne_nil c cs) rest)
      (ih hcs)

/-- Lines that were each ended by a terminator come back, and nothing is left. -/
theorem cutAt_ended (hterminator : terminator ≠ []) (hunbordered : Unbordered terminator)
    {lines : List (List Char)} (h : ∀ line ∈ lines, ¬ terminator <:+: line) :
    cutAt terminator (lines.flatMap (· ++ terminator)) = (lines, []) := by
  induction lines with
  | nil => rfl
  | cons line rest ih =>
    have hrest := ih fun l hl => h l (List.mem_cons_of_mem line hl)
    rw [List.flatMap_cons, List.append_assoc,
      cutAt_line hterminator hunbordered (h line List.mem_cons_self), hrest]

end Cut

/-! ### Lines of a document -/

namespace LineEnding

/-- The terminator occurs in a text. -/
def OccursIn (ending : LineEnding) (text : String) : Prop :=
  ending.text.toList <:+: text.toList

instance (ending : LineEnding) (text : String) : Decidable (ending.OccursIn text) :=
  inferInstanceAs (Decidable (_ <:+: _))

/-- The lines of a text, each of which the terminator ends, and what is left after them. -/
def cut (ending : LineEnding) (text : String) : List String × String :=
  let parts := cutAt ending.text.toList text.toList
  (parts.1.map String.ofList, String.ofList parts.2)

theorem newline_mem_text (ending : LineEnding) : '\n' ∈ ending.text.toList := by
  cases ending <;> decide

theorem text_ne_nil (ending : LineEnding) : ending.text.toList ≠ [] :=
  List.ne_nil_of_mem ending.newline_mem_text

/-- Without a line feed there is no terminator. -/
theorem not_occursIn_of_newline {ending : LineEnding} {text : String} (h : '\n' ∉ text.toList) :
    ¬ ending.OccursIn text :=
  fun hoccurs => h (hoccurs.subset ending.newline_mem_text)

theorem unbordered_text (ending : LineEnding) : Unbordered ending.text.toList := by
  intro front back htext hfront hback hborder
  obtain ⟨a, as, rfl⟩ := List.exists_cons_of_ne_nil hfront
  obtain ⟨b, bs, rfl⟩ := List.exists_cons_of_ne_nil hback
  cases ending with
  | lf =>
    -- one character has no two parts
    have hlength := congrArg List.length htext
    simp only [List.length_append, List.length_cons] at hlength
    have hone : LineEnding.lf.text.toList.length = 1 := by decide
    omega
  | crlf =>
    have hcrlf : LineEnding.crlf.text.toList = ['\r', '\n'] := by decide
    rw [hcrlf] at htext hborder
    -- the part behind is the line feed, and the text does not begin with it
    have hlength := congrArg List.length htext
    simp only [List.length_append, List.length_cons, List.length_nil] at hlength
    obtain rfl := List.length_eq_zero_iff.mp (show as.length = 0 by omega)
    obtain rfl := List.length_eq_zero_iff.mp (show bs.length = 0 by omega)
    simp only [List.cons_append, List.nil_append, List.cons.injEq] at htext
    obtain ⟨-, rfl, -⟩ := htext
    revert hborder
    decide

/-- Lines in none of which the terminator occurs come back from a text. -/
theorem cut_join {ending : LineEnding} {lines : List String}
    (h : ∀ line ∈ lines, ¬ ending.OccursIn line) :
    ending.cut (String.join (lines.map (· ++ ending.text))) = (lines, "") := by
  have hchars : (String.join (lines.map (· ++ ending.text))).toList =
      (lines.map String.toList).flatMap (· ++ ending.text.toList) := by
    rw [String.toList_join, List.flatMap_map, List.flatMap_map]
    simp only [String.toList_append]
  have hlines : ∀ line ∈ lines.map String.toList, ¬ ending.text.toList <:+: line := by
    intro line hline
    obtain ⟨l, hl, rfl⟩ := List.mem_map.mp hline
    exact h l hl
  rw [cut, hchars, cutAt_ended ending.text_ne_nil ending.unbordered_text hlines, List.map_map]
  have hround : String.ofList ∘ String.toList = id := funext fun s => String.ofList_toList
  rw [hround, List.map_id]

/-- A carriage return alone ends no line. -/
example : LineEnding.crlf.cut "a\rb\r\n\r\n" = (["a\rb", ""], "") := by decide +kernel

/-! ### Blocks of a document -/

/-- The groups of lines that empty lines separate; no lines are no groups. -/
def groups : List String → List (List String)
  | [] => []
  | line :: rest => (line :: rest).splitOn ""

/-- The blocks of a document: the groups of its lines but for the first line and the last. -/
def blocks (ending : LineEnding) (text : String) : List (List String) :=
  groups (ending.cut text).1.tail.dropLast

/-- Groups without empty lines, of which none is empty, come back. -/
theorem groups_intercalate {blocks : List (List String)}
    (h : ∀ block ∈ blocks, block ≠ [] ∧ "" ∉ block) :
    groups ([""].intercalate blocks) = blocks := by
  cases hblocks : blocks with
  | nil => rfl
  | cons block rest =>
    have hcut : ([""].intercalate blocks).splitOn "" = blocks :=
      List.splitOn_intercalate "" (fun b hb => (h b hb).2) (hblocks ▸ List.cons_ne_nil block rest)
    have hne := (h block (hblocks ▸ List.mem_cons_self)).1
    rw [hblocks] at hcut
    -- the first line of the first block is there to be grouped
    obtain ⟨line, lines, rfl⟩ := List.exists_cons_of_ne_nil hne
    cases rest with
    | nil => exact hcut
    | cons next rest => exact hcut

end LineEnding

namespace Board

/-- Separating blocks is putting an empty line between them. -/
theorem separate_eq_intercalate (blocks : List (List String)) :
    separate blocks = [""].intercalate blocks := by
  induction blocks with
  | nil => rfl
  | cons block rest ih =>
    cases rest with
    | nil =>
      rw [separate, List.intercalate_singleton]
    | cons next rest =>
      rw [separate, ih, List.intercalate_cons_cons, List.append_assoc]
      · rfl
      · exact List.cons_ne_nil next rest

end Board

end Storyboard
