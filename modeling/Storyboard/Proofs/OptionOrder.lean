/-
Storyboard/Proofs/OptionOrder.lean

Options in any order.

Arguments that are accepted spell options, each with its value in one of two ways
(`exists_spelled`), and they are read as if one option after the other was noted
(`parseOptions_of_spelled`).  An option adds its value to those with its name
(`Given.note_eq_some`), so what has been noted in the end is the values of each option in
order (`Given.foldlM_note_eq_some`).  All of them are noted if only libraries have more than
one (`Given.exists_foldlM_note`).  So the values of each option decide what the arguments are
accepted as (`parse_eq_some_iff`), whatever stands between them, and for one value there is
one order only.

Main result: `options_stand_in_any_order`.
-/
import Mathlib.Data.List.TakeWhile
import Storyboard.Files.FileSystem
import Storyboard.Proofs.Arguments

namespace Storyboard

namespace CommandLine

/-! ### Options and their spellings -/

/-- The name of a subcommand. -/
def Subcommand.name : Subcommand → String
  | .compile => "compile"
  | .print => "print"

/-- An option with its value. -/
structure Assignment where
  name : OptionName
  value : String
  deriving DecidableEq

/-- The values of an option, in order. -/
def valuesOf (o : OptionName) (options : List Assignment) : List String :=
  (options.filter (·.name = o)).map (·.value)

/-- Arguments spell options, each with its value as one argument or as two.  A value that looks
like an option cannot be an argument of its own.  Two hyphens may stand at the end. -/
inductive Spelled : List Assignment → List String → Prop
  | none : Spelled [] []
  | closed : Spelled [] ["--"]
  | joined (a : Assignment) {options : List Assignment} {args : List String}
      (h : Spelled options args) : Spelled (a :: options) (a.name.assign a.value :: args)
  | apart (a : Assignment) {options : List Assignment} {args : List String}
      (hvalue : looksLikeOption a.value = false) (h : Spelled options args) :
      Spelled (a :: options) (a.name.name :: a.value :: args)

/-- The same options in another order, the libraries among themselves in the same. -/
structure Reordered (options options' : List Assignment) : Prop where
  perm : options.Perm options'
  libraries : valuesOf .library options = valuesOf .library options'

/-- The subcommand has the option, and the value is the name of a line ending or a path. -/
def Subcommand.Takes (c : Subcommand) (a : Assignment) : Prop :=
  match a.name with
  | .script => a.value ≠ ""
  | .library => a.value ≠ ""
  | .lineEnding => a.value = "crlf" ∨ a.value = "lf"
  | .out => c = .compile ∧ a.value ≠ ""

/-- What options ask to be compiled.  The libraries come first, in their order, and then the
script; lines end as the option says, or with both characters. -/
structure AskFor (options : List Assignment) (o : CompileOptions) : Prop where
  script : valuesOf .script options = [o.script.text]
  sources : o.sources.map (·.text) = valuesOf .library options ++ valuesOf .script options
  ending : valuesOf .lineEnding options = [] ∧ o.ending = .crlf ∨
    valuesOf .lineEnding options = [endingName o.ending]

/-- What options ask of a subcommand: `compile` needs an output. -/
inductive Ask (options : List Assignment) : Subcommand → Invocation → Prop
  | print {o : CompileOptions} (h : AskFor options o) : Ask options .print (.print o)
  | compile {o : CompileOptions} {out : Path} (h : AskFor options o)
      (hout : valuesOf .out options = [out.text]) : Ask options .compile (.compile o out)

/-- The option is given by this argument: up to the first equality sign it is the name. -/
def OptionName.isGivenBy (o : OptionName) (argument : String) : Bool :=
  argument.toList.takeWhile (· != '=') = o.name.toList

/-! ### What has been noted -/

section Values

variable {options options' : List Assignment} {o : OptionName}

theorem valuesOf_cons (a : Assignment) (options : List Assignment) :
    valuesOf o (a :: options) = valuesOf o [a] ++ valuesOf o options := by
  rw [valuesOf, valuesOf, valuesOf, ← List.map_append, ← List.filter_append, List.singleton_append]

theorem valuesOf_self (a : Assignment) : valuesOf a.name [a] = [a.value] := by simp [valuesOf]

/-- An option that is not given twice has the same values in any order. -/
theorem valuesOf_perm (h : options.Perm options') (hone : (valuesOf o options).length ≤ 1) :
    valuesOf o options = valuesOf o options' := by
  have hvalues : (valuesOf o options).Perm (valuesOf o options') := (h.filter _).map _
  generalize valuesOf o options = values at hvalues hone
  match values, hone with
  | [], _ => exact (List.nil_perm.mp hvalues).symm
  | [value], _ => exact List.singleton_perm.mp hvalues

end Values

theorem text_inj (p q : Path) (h : p.text = q.text) : p = q := congrArg Path.mk h

theorem endingName_inj (e e' : LineEnding) : endingName e = endingName e' → e = e' := by
  cases e <;> cases e' <;> decide

theorem toList_map_inj {α : Type} {f : α → String} (hf : ∀ a b, f a = f b → a = b)
    {x y : Option α} (h : x.toList.map f = y.toList.map f) : x = y := by
  rw [List.map_inj_right hf] at h
  simpa using congrArg List.head? h

theorem pathValue_eq_some {value : String} {p : Path} (h : pathValue value = some p) :
    value ≠ "" ∧ p.text = value := by
  rw [pathValue] at h
  split at h
  · cases h
  · rename_i hempty
    cases h
    exact ⟨fun heq => hempty (String.isEmpty_iff.mpr heq), rfl⟩

theorem exists_pathValue {value : String} (h : value ≠ "") : ∃ p, pathValue value = some p :=
  ⟨⟨value⟩, pathValue_text h⟩

theorem endingNamed_eq_some {value : String} {e : LineEnding} (h : endingNamed value = some e) :
    endingName e = value := by
  unfold endingNamed at h
  split at h <;> cases h <;> rfl

namespace Given

variable {c : Subcommand} {g g' : Given} {a : Assignment} {options : List Assignment}

/-- The values that have been noted of an option. -/
def values (g : Given) : OptionName → List String
  | .script => g.script.toList.map (·.text)
  | .library => g.libraries.map (·.text)
  | .lineEnding => g.ending.toList.map endingName
  | .out => g.out.toList.map (·.text)

/-- Take note of an option, if the subcommand has it. -/
def note (c : Subcommand) (g : Given) (a : Assignment) : Option Given :=
  (optionNamed c a.name.name).bind fun o => g.set o a.value

/-- An option that may be given once has not been given before. -/
theorem eq_some_of_once {α β : Type} {x : Option α} {y : Option β} {f : β → Given}
    (h : (if x.isSome then none else y.map f) = some g) : x = none ∧ ∃ b, y = some b ∧ f b = g := by
  split at h
  · cases h
  · rename_i hnone
    exact ⟨Option.not_isSome_iff_eq_none.mp hnone, Option.map_eq_some_iff.mp h⟩

/-- **What one option adds.** -/
theorem note_eq_some (h : g.note c a = some g') :
    c.Takes a ∧ ∀ o, g'.values o = g.values o ++ valuesOf o [a] := by
  obtain ⟨name, value⟩ := a
  cases name with
  | script =>
    change g.set .script value = some g' at h
    obtain ⟨hnone, p, hp, rfl⟩ := eq_some_of_once h
    obtain ⟨hne, rfl⟩ := pathValue_eq_some hp
    exact ⟨hne, fun o => by cases o <;> simp [values, valuesOf, hnone]⟩
  | library =>
    change g.set .library value = some g' at h
    obtain ⟨p, hp, rfl⟩ := Option.map_eq_some_iff.mp h
    obtain ⟨hne, rfl⟩ := pathValue_eq_some hp
    exact ⟨hne, fun o => by cases o <;> simp [values, valuesOf]⟩
  | lineEnding =>
    change g.set .lineEnding value = some g' at h
    obtain ⟨hnone, e, he, rfl⟩ := eq_some_of_once h
    obtain rfl := endingNamed_eq_some he
    refine ⟨?_, fun o => by cases o <;> simp [values, valuesOf, hnone]⟩
    cases e
    · exact .inl rfl
    · exact .inr rfl
  | out =>
    cases c with
    | print => cases h
    | compile =>
      change g.set .out value = some g' at h
      obtain ⟨hnone, p, hp, rfl⟩ := eq_some_of_once h
      obtain ⟨hne, rfl⟩ := pathValue_eq_some hp
      exact ⟨⟨rfl, hne⟩, fun o => by cases o <;> simp [values, valuesOf, hnone]⟩

/-- An option that makes sense is noted if there is room. -/
theorem exists_note (h : c.Takes a) (hroom : a.name ≠ .library → g.values a.name = []) :
    ∃ g', g.note c a = some g' := by
  have hnone {α : Type} {f : α → String} {x : Option α} (hx : x.toList.map f = []) :
      x.isSome = false := by
    cases x
    · rfl
    · cases hx
  obtain ⟨name, value⟩ := a
  cases name with
  | script =>
    obtain ⟨p, hp⟩ := exists_pathValue h
    refine ⟨{ g with script := some p }, ?_⟩
    show g.set .script value = _
    rw [set, hnone (hroom (by simp)), hp]
    rfl
  | library =>
    obtain ⟨p, hp⟩ := exists_pathValue h
    refine ⟨{ g with libraries := g.libraries ++ [p] }, ?_⟩
    show g.set .library value = _
    rw [set, hp]
    rfl
  | lineEnding =>
    obtain ⟨e, he⟩ : ∃ e, endingNamed value = some e := by
      obtain rfl | rfl := h
      · exact ⟨.crlf, rfl⟩
      · exact ⟨.lf, rfl⟩
    refine ⟨{ g with ending := some e }, ?_⟩
    show g.set .lineEnding value = _
    rw [set, hnone (hroom (by simp)), he]
    rfl
  | out =>
    obtain ⟨rfl, hne⟩ := h
    obtain ⟨p, hp⟩ := exists_pathValue hne
    refine ⟨{ g with out := some p }, ?_⟩
    show g.set .out value = _
    rw [set, hnone (hroom (by simp)), hp]
    rfl

/-- **What options add.**  Each of them makes sense, and the values of each option are noted in
order. -/
theorem foldlM_note_eq_some (h : options.foldlM (note c) g = some g') :
    (∀ a ∈ options, c.Takes a) ∧ ∀ o, g'.values o = g.values o ++ valuesOf o options := by
  induction options generalizing g with
  | nil =>
    rw [List.foldlM_nil] at h
    cases h
    exact ⟨List.forall_mem_nil _, fun o => (List.append_nil _).symm⟩
  | cons a options ih =>
    rw [List.foldlM_cons] at h
    obtain ⟨g₁, hnote, hrest⟩ := Option.bind_eq_some_iff.mp h
    obtain ⟨htakes, hadds⟩ := note_eq_some hnote
    obtain ⟨hall, hvalues⟩ := ih hrest
    refine ⟨List.forall_mem_cons.mpr ⟨htakes, hall⟩, fun o => ?_⟩
    rw [hvalues, hadds, List.append_assoc, ← valuesOf_cons]

/-- Options that make sense are noted if there is room for all of their values. -/
theorem exists_foldlM_note (h : ∀ a ∈ options, c.Takes a)
    (hroom : ∀ o ≠ .library, (g.values o ++ valuesOf o options).length ≤ 1) :
    ∃ g', options.foldlM (note c) g = some g' := by
  induction options generalizing g with
  | nil => exact ⟨g, rfl⟩
  | cons a options ih =>
    obtain ⟨htakes, hall⟩ := List.forall_mem_cons.mp h
    have hfirst (hname : a.name ≠ .library) : g.values a.name = [] := by
      have hlength := hroom a.name hname
      rw [valuesOf_cons, valuesOf_self, List.length_append, List.length_append,
        List.length_singleton] at hlength
      exact List.eq_nil_of_length_eq_zero (by omega)
    obtain ⟨g₁, hnote⟩ := exists_note htakes hfirst
    have hadds := (note_eq_some hnote).2
    obtain ⟨g', hrest⟩ := ih (g := g₁) hall fun o ho => by
      rw [hadds, List.append_assoc, ← valuesOf_cons]
      exact hroom o ho
    refine ⟨g', ?_⟩
    rw [List.foldlM_cons, hnote]
    exact hrest

end Given

/-! ### What is asked -/

section Asking

variable {c : Subcommand} {g : Given} {options options' : List Assignment}
  {invocation : Invocation}

/-- What is asked to be compiled is what has been noted. -/
theorem askFor_iff {o : CompileOptions} (hvalues : ∀ o, g.values o = valuesOf o options) :
    AskFor options o ↔
      ∃ script, g.script = some script ∧ o = ⟨g.libraries, script, g.ending.getD .crlf⟩ := by
  constructor
  · intro h
    have hscript : g.script = some o.script :=
      toList_map_inj text_inj ((hvalues .script).trans h.script)
    have hlibraries : g.libraries = o.libraries := by
      have hsources := h.sources
      rw [h.script, CompileOptions.sources, List.map_append, ← hvalues] at hsources
      exact (List.map_inj_right text_inj).mp (List.append_cancel_right hsources).symm
    have hending : g.ending.getD .crlf = o.ending := by
      have hnoted := hvalues .lineEnding
      obtain ⟨hnone, hending⟩ | hone := h.ending
      · rw [hending, toList_map_inj endingName_inj (hnoted.trans hnone : _ = none.toList.map _)]
        rfl
      · rw [toList_map_inj endingName_inj (hnoted.trans hone : _ = (some _).toList.map _)]
        rfl
    exact ⟨o.script, hscript, by rw [hlibraries, hending]⟩
  · rintro ⟨script, hscript, rfl⟩
    have hone : valuesOf .script options = [script.text] := by
      rw [← hvalues, Given.values, hscript]
      rfl
    refine ⟨hone, ?_, ?_⟩
    · rw [hone, CompileOptions.sources, List.map_append, ← hvalues]
      rfl
    · rw [← hvalues, Given.values]
      cases g.ending with
      | none => exact .inl ⟨rfl, rfl⟩
      | some e => exact .inr rfl

/-- What has been noted is enough exactly if the values are. -/
theorem invocation_eq_some_iff (hvalues : ∀ o, g.values o = valuesOf o options) :
    g.invocation c = some invocation ↔ Ask options c invocation := by
  constructor
  · intro h
    obtain ⟨script, hscript, h⟩ := Option.bind_eq_some_iff.mp h
    have hasks := (askFor_iff hvalues).mpr ⟨script, hscript, rfl⟩
    cases c with
    | print =>
      cases h
      exact .print hasks
    | compile =>
      obtain ⟨out, hout, h⟩ := Option.bind_eq_some_iff.mp h
      cases h
      refine .compile hasks ?_
      rw [← hvalues, Given.values, hout]
      rfl
  · rintro (hasks | ⟨hasks, hout⟩)
    · obtain ⟨script, hscript, rfl⟩ := (askFor_iff hvalues).mp hasks
      rw [Given.invocation, hscript]
      rfl
    · obtain ⟨script, hscript, rfl⟩ := (askFor_iff hvalues).mp hasks
      rename_i out
      have hout : g.out = some out := toList_map_inj text_inj ((hvalues .out).trans hout)
      rw [Given.invocation, hscript, hout]
      rfl

theorem Ask.exists_askFor (h : Ask options c invocation) : ∃ o, AskFor options o := by
  obtain h | ⟨h, -⟩ := h <;> exact ⟨_, h⟩

/-- Nothing is asked for twice but libraries. -/
theorem Ask.length_le (h : Ask options c invocation) (htakes : ∀ a ∈ options, c.Takes a)
    {o : OptionName} (ho : o ≠ .library) : (valuesOf o options).length ≤ 1 := by
  obtain ⟨_, hasks⟩ := h.exists_askFor
  cases o with
  | script => rw [hasks.script, List.length_singleton]
  | library => exact absurd rfl ho
  | lineEnding =>
    obtain ⟨hnone, -⟩ | hone := hasks.ending
    · rw [hnone]
      exact Nat.zero_le 1
    · rw [hone, List.length_singleton]
  | out =>
    cases h with
    | print _ =>
      have hnone : valuesOf .out options = [] := by
        rw [valuesOf, List.map_eq_nil_iff, List.filter_eq_nil_iff]
        intro a ha hname
        have hout := htakes a ha
        rw [Subcommand.Takes, of_decide_eq_true hname] at hout
        cases hout.1
      rw [hnone]
      exact Nat.zero_le 1
    | compile _ hout => rw [hout, List.length_singleton]

theorem AskFor.congr {o : CompileOptions} (h : AskFor options o)
    (hvalues : ∀ o, valuesOf o options = valuesOf o options') : AskFor options' o where
  script := hvalues .script ▸ h.script
  sources := by rw [← hvalues, ← hvalues, h.sources]
  ending := hvalues .lineEnding ▸ h.ending

/-- Only the values count. -/
theorem Ask.congr (h : Ask options c invocation)
    (hvalues : ∀ o, valuesOf o options = valuesOf o options') : Ask options' c invocation := by
  cases h with
  | print h => exact .print (h.congr hvalues)
  | compile h hout => exact .compile (h.congr hvalues) (hvalues .out ▸ hout)

end Asking

/-! ### What is spelled -/

section Spellings

variable {c : Subcommand} {options : List Assignment} {args : List String} {o : OptionName}

/-- An option that is given as two arguments is taken note of, if that is possible. -/
theorem parseOptions_apart (c : Subcommand) (g : Given) (o : OptionName) {value : String}
    (hvalue : looksLikeOption value = false) (rest : List String) :
    parseOptions c g (o.name :: value :: rest) =
      (optionNamed c o.name).bind fun o => (g.set o value).bind fun g => parseOptions c g rest := by
  have hhelp : ¬ asksForHelp o.name = true := by cases o <;> decide
  have hsplit : splitAssignment o.name = none := by cases o <;> decide
  rw [parseOptions.eq_3, if_neg hhelp, hsplit]
  simp only [hvalue]
  rfl

/-- **Spelled options are noted one after the other.** -/
theorem parseOptions_of_spelled (h : Spelled options args) (g : Given) :
    parseOptions c g args = (options.foldlM (Given.note c) g).bind (·.invocation c) := by
  have hcons (a : Assignment) {options : List Assignment} {args : List String}
      (ih : ∀ g, parseOptions c g args =
        (options.foldlM (Given.note c) g).bind (·.invocation c)) (g : Given) :
      ((optionNamed c a.name.name).bind fun o => (g.set o a.value).bind fun g =>
          parseOptions c g args) =
        ((a :: options).foldlM (Given.note c) g).bind (·.invocation c) := by
    rw [List.foldlM_cons]
    show _ = ((g.note c a).bind fun g => options.foldlM (Given.note c) g).bind _
    rw [Given.note, Option.bind_assoc, Option.bind_assoc]
    simp only [ih]
  induction h generalizing g with
  | none => rfl
  | closed => rfl
  | joined a h ih => rw [parseOptions_joined, hcons a ih]
  | apart a hvalue h ih => rw [parseOptions_apart c g a.name hvalue, hcons a ih]

theorem optionNamed_eq_some {name : String} (h : optionNamed c name = some o) : name = o.name := by
  unfold optionNamed at h
  split at h
  · cases h; rfl
  · cases h; rfl
  · cases h; rfl
  · split at h <;> cases h
    rfl
  · cases h

theorem splitAssignment_eq_some {argument name value : String}
    (h : splitAssignment argument = some (name, value)) : argument = name ++ "=" ++ value := by
  have hparts := List.takeWhile_append_dropWhile (p := (· != '=')) (l := argument.toList)
  rw [splitAssignment] at h
  split at h
  · rename_i rest hrest
    cases h
    rw [hrest] at hparts
    rw [← String.toList_inj]
    simp [hparts]
  · cases h

/-- **Arguments that are accepted spell options**, unless they ask for help. -/
theorem exists_spelled {g : Given} (hhelp : ∀ a ∈ args, asksForHelp a = false)
    {invocation : Invocation} (h : parseOptions c g args = some invocation) :
    ∃ options, Spelled options args := by
  have hjoined {argument name value : String} {o : OptionName}
      (hsplit : splitAssignment argument = some (name, value)) (hname : optionNamed c name = some o) :
      argument = o.assign value := by
    rw [splitAssignment_eq_some hsplit, optionNamed_eq_some hname, OptionName.assign]
  induction g, args using parseOptions.induct with
  | case1 g => exact ⟨[], .none⟩
  | case2 g argument hasks => rw [hhelp argument List.mem_cons_self] at hasks; cases hasks
  | case3 g hasks => exact ⟨[], .closed⟩
  | case4 g argument hasks hdashes =>
    rw [parseOptions.eq_2, if_neg hasks, if_neg hdashes] at h
    obtain ⟨⟨name, value⟩, hsplit, h⟩ := Option.bind_eq_some_iff.mp h
    obtain ⟨o, hname, -⟩ := Option.bind_eq_some_iff.mp h
    rw [hjoined hsplit hname]
    exact ⟨_, .joined ⟨o, value⟩ .none⟩
  | case5 g argument value rest hasks =>
    rw [hhelp argument List.mem_cons_self] at hasks
    cases hasks
  | case6 g argument value rest hasks name assigned hsplit ih =>
    rw [parseOptions.eq_3, if_neg hasks, hsplit] at h
    obtain ⟨o, hname, h⟩ := Option.bind_eq_some_iff.mp h
    obtain ⟨g', -, h⟩ := Option.bind_eq_some_iff.mp h
    obtain ⟨options, hrest⟩ := ih g' (fun a ha => hhelp a (List.mem_cons_of_mem _ ha)) h
    rw [hjoined hsplit hname]
    exact ⟨_, .joined ⟨o, assigned⟩ hrest⟩
  | case7 g argument value rest hasks hsplit ih =>
    rw [parseOptions.eq_3, if_neg hasks, hsplit] at h
    obtain ⟨o, hname, h⟩ := Option.bind_eq_some_iff.mp h
    split at h
    · cases h
    · rename_i hvalue
      obtain ⟨g', -, h⟩ := Option.bind_eq_some_iff.mp h
      obtain ⟨options, hrest⟩ :=
        ih g' (fun a ha => hhelp a (List.mem_cons_of_mem _ (List.mem_cons_of_mem _ ha))) h
      rw [optionNamed_eq_some hname]
      exact ⟨_, .apart ⟨o, value⟩ (eq_false_of_ne_true hvalue) hrest⟩

end Spellings

/-! ### How often an option is given -/

namespace OptionName

variable (o : OptionName)

theorem name_inj {o' : OptionName} : o'.name.toList = o.name.toList ↔ o' = o := by
  cases o <;> cases o' <;> decide

theorem isGivenBy_assign (o' : OptionName) (value : String) :
    o.isGivenBy (o'.assign value) = decide (o' = o) := by
  rw [isGivenBy, toList_assign, List.takeWhile_append_of_pos o'.ne_equals_of_mem_name,
    List.takeWhile_cons_of_neg (by decide), List.append_nil]
  simp only [name_inj]

theorem isGivenBy_name (o' : OptionName) : o.isGivenBy o'.name = decide (o' = o) := by
  have htake := List.takeWhile_eq_self_iff.mpr o'.ne_equals_of_mem_name
  rw [isGivenBy, htake]
  simp only [name_inj]

/-- Names look like options. -/
theorem isGivenBy_value {value : String} (h : looksLikeOption value = false) :
    o.isGivenBy value = false := by
  obtain ⟨more, hname⟩ : ∃ more, o.name.toList = '-' :: '-' :: more := by
    cases o <;> exact ⟨_, rfl⟩
  refine eq_false_of_ne_true fun hgiven => ?_
  have htake : value.toList.takeWhile (· != '=') = o.name.toList := of_decide_eq_true hgiven
  obtain ⟨rest, hrest⟩ := List.takeWhile_prefix (l := value.toList) (· != '=')
  rw [htake, hname] at hrest
  have hhead : value.toList.head? = some '-' := by rw [← hrest]; rfl
  have hne : value ≠ "-" := by
    rintro rfl
    simp at hrest
  rw [looksLikeOption, hhead] at h
  simp [hne] at h

end OptionName

/-- The arguments give an option as often as the options that they spell. -/
theorem countP_isGivenBy {options : List Assignment} {args : List String}
    (h : Spelled options args) (o : OptionName) :
    args.countP o.isGivenBy = (valuesOf o options).length := by
  have hcons (a : Assignment) (options : List Assignment) :
      (valuesOf o (a :: options)).length =
        (valuesOf o options).length + if a.name = o then 1 else 0 := by
    by_cases ha : a.name = o <;> simp [valuesOf, ha]
  induction h with
  | none => rfl
  | closed => cases o <;> rfl
  | joined a h ih => simp [List.countP_cons, o.isGivenBy_assign, hcons, ih]
  | apart a hvalue h ih =>
    simp [List.countP_cons, o.isGivenBy_name, o.isGivenBy_value hvalue, hcons, ih]

/-! ### The theorem -/

section Theorem

variable {c : Subcommand} {options options' : List Assignment} {args : List String}
  {invocation : Invocation}

theorem parse_name (c : Subcommand) (args : List String) :
    parse (c.name :: args) = parseOptions c {} args := by cases c <;> rfl

/-- **What spelled options are accepted as.** -/
theorem parse_eq_some_iff (h : Spelled options args) :
    parse (c.name :: args) = some invocation ↔
      (∀ a ∈ options, c.Takes a) ∧ Ask options c invocation := by
  rw [parse_name, parseOptions_of_spelled h, Option.bind_eq_some_iff]
  have hstart (o : OptionName) : Given.values {} o = [] := by cases o <;> rfl
  have hfinish {g : Given} (hnoted : options.foldlM (Given.note c) {} = some g) (o : OptionName) :
      g.values o = valuesOf o options := by
    rw [(Given.foldlM_note_eq_some hnoted).2, hstart, List.nil_append]
  constructor
  · rintro ⟨g, hnoted, hinvocation⟩
    exact ⟨(Given.foldlM_note_eq_some hnoted).1,
      (invocation_eq_some_iff (hfinish hnoted)).mp hinvocation⟩
  · rintro ⟨htakes, hasks⟩
    obtain ⟨g, hnoted⟩ := Given.exists_foldlM_note (g := {}) htakes fun o ho => by
      rw [hstart, List.nil_append]
      exact hasks.length_le htakes ho
    exact ⟨g, hnoted, (invocation_eq_some_iff (hfinish hnoted)).mpr hasks⟩

/-- Reordered options are accepted as the same. -/
theorem Reordered.ask (h : Reordered options options') (htakes : ∀ a ∈ options, c.Takes a)
    (hasks : Ask options c invocation) :
    (∀ a ∈ options', c.Takes a) ∧ Ask options' c invocation := by
  refine ⟨fun a ha => htakes a (h.perm.mem_iff.mpr ha), hasks.congr fun o => ?_⟩
  by_cases ho : o = .library
  · rw [ho, h.libraries]
  · exact valuesOf_perm h.perm (hasks.length_le htakes ho)

end Theorem

/-- **Options stand in any order.**  Unless they ask for help, the arguments of a subcommand are
accepted exactly if they spell options that it has, with values that make sense for them: one
script, one output for `compile`, at most one line ending, and any number of libraries.  The
sources are then the libraries in their order and the script after them, and lines end as the
option says, or with both characters.  Whoever spells the same options in another order or in
other ways, but the libraries in the same order, asks for the same and gets the same run.  If
an option other than a library is given twice, or the script or the output of `compile` is
not given, then the program answers with code 2 and does nothing else. -/
theorem options_stand_in_any_order (c : Subcommand) {args : List String}
    (hhelp : ∀ a ∈ args, asksForHelp a = false) (processId : String) :
    (∀ invocation, parse (c.name :: args) = some invocation ↔
      ∃ options, Spelled options args ∧ (∀ a ∈ options, c.Takes a) ∧
        Ask options c invocation) ∧
    (∀ options invocation, Spelled options args → parse (c.name :: args) = some invocation →
      ∀ options' args', Reordered options options' → Spelled options' args' →
        parse (c.name :: args') = some invocation ∧
        ∀ {m : Type → Type} [Monad m] [Disk m],
          (run processId (c.name :: args') : m Report) = run processId (c.name :: args)) ∧
    ((∃ o : OptionName, o ≠ .library ∧ 1 < args.countP o.isGivenBy) ∨
        args.countP OptionName.script.isGivenBy = 0 ∨
        c = .compile ∧ args.countP OptionName.out.isGivenBy = 0 →
      ∀ {m : Type → Type} [Monad m] [Disk m],
        (run processId (c.name :: args) : m Report) = pure { code := 2, stderr := usageText }) := by
  have haccepts (invocation : Invocation) : parse (c.name :: args) = some invocation ↔
      ∃ options, Spelled options args ∧ (∀ a ∈ options, c.Takes a) ∧
        Ask options c invocation := by
    constructor
    · intro h
      have hparsed := h
      rw [parse_name] at hparsed
      obtain ⟨options, hspelled⟩ := exists_spelled hhelp hparsed
      exact ⟨options, hspelled, (parse_eq_some_iff hspelled).mp h⟩
    · rintro ⟨options, hspelled, hasks⟩
      exact (parse_eq_some_iff hspelled).mpr hasks
  refine ⟨haccepts, ?_, ?_⟩
  · intro options invocation hspelled hparse options' args' hreordered hspelled'
    obtain ⟨htakes, hasks⟩ := (parse_eq_some_iff hspelled).mp hparse
    have hparse' := (parse_eq_some_iff hspelled').mpr (hreordered.ask htakes hasks)
    refine ⟨hparse', ?_⟩
    intro m _ _
    rw [run, run, hparse, hparse']
  · intro hwrong m _ _
    cases hparse : parse (c.name :: args) with
    | none => rw [run, hparse]
    | some invocation =>
      exfalso
      obtain ⟨options, hspelled, htakes, hasks⟩ := (haccepts invocation).mp hparse
      simp only [countP_isGivenBy hspelled] at hwrong
      obtain ⟨o, ho, htwice⟩ | hscript | ⟨rfl, hout⟩ := hwrong
      · exact absurd (hasks.length_le htakes ho) (Nat.not_le.mpr htwice)
      · obtain ⟨_, hone⟩ := hasks.exists_askFor
        rw [hone.script] at hscript
        cases hscript
      · cases hasks with
        | compile _ hone =>
          rw [hone] at hout
          cases hout

/-- Two libraries around the other options, and in front of them in another spelling; and a
second script. -/
theorem options_stand_in_any_order_of_two_libraries :
    let args := ["--lib", "a.json", "--script=b.json", "--out", "c.osb", "--lib=d.json"]
    let args' := ["--out=c.osb", "--lib=a.json", "--lib", "d.json", "--script", "b.json", "--"]
    let invocation := Invocation.compile ⟨[⟨"a.json"⟩, ⟨"d.json"⟩], ⟨"b.json"⟩, .crlf⟩ ⟨"c.osb"⟩
    parse ("compile" :: args) = some invocation ∧ parse ("compile" :: args') = some invocation ∧
      ∀ fs : FileSystem, fs.run (run "7" ("compile" :: "--script" :: "e.json" :: args)) =
        ({ code := 2, stderr := usageText }, fs) := by
  intro args args' invocation
  let first : Assignment := ⟨.library, "a.json"⟩
  let second : Assignment := ⟨.library, "d.json"⟩
  let script : Assignment := ⟨.script, "b.json"⟩
  let out : Assignment := ⟨.out, "c.osb"⟩
  have hspelled : Spelled [first, script, out, second] args :=
    .apart first (by decide) (.joined script (.apart out (by decide) (.joined second .none)))
  have hspelled' : Spelled [out, first, second, script] args' :=
    .joined out (.joined first (.apart second (by decide) (.apart script (by decide) .closed)))
  have hreordered : Reordered [first, script, out, second] [out, first, second, script] :=
    ⟨by decide, by decide⟩
  have hparse : parse ("compile" :: args) = some invocation := by decide
  have hhelp : ∀ a ∈ args, asksForHelp a = false := by decide
  have hhelp' : ∀ a ∈ "--script" :: "e.json" :: args, asksForHelp a = false := by decide
  obtain ⟨-, hsame, -⟩ := options_stand_in_any_order .compile hhelp "7"
  obtain ⟨-, -, hwrong⟩ := options_stand_in_any_order .compile hhelp' "7"
  refine ⟨hparse, (hsame _ _ hspelled hparse _ _ hreordered hspelled').1, fun fs => ?_⟩
  have hrefused := hwrong (.inl ⟨.script, by decide, by decide⟩) (m := StateM FileSystem)
  exact congrFun hrefused fs

end CommandLine

end Storyboard
