/-
Storyboard/Proofs/Arguments.lean

Options as arguments.

Everything that can be asked of `print` can be asked of `compile` by naming an output as
well: parsing goes through the same states, but for the output that is already given
(`parseOptions_withOut`), which only another output could notice.  So the arguments of one
subcommand mean to the other what they mean to the first, arguments that ask for help or
make no sense among them (`parse_compile`).

Options that are written out as arguments are read back (`parse_arguments`), whatever
characters there are in a path.
-/
import Storyboard.CommandLine

namespace Storyboard

namespace CommandLine

/-! ### One argument -/

/-- The name of an option. -/
def OptionName.name : OptionName → String
  | .script => "--script"
  | .library => "--lib"
  | .lineEnding => "--line-ending"
  | .out => "--out"

/-- An option and its value as one argument. -/
def OptionName.assign (o : OptionName) (value : String) : String := o.name ++ "=" ++ value

namespace OptionName

variable (o : OptionName) (value : String)

theorem toList_assign : (o.assign value).toList = o.name.toList ++ '=' :: value.toList := by
  simp [assign]

theorem ne_equals_of_mem_name : ∀ c ∈ o.name.toList, (c != '=') = true := by
  cases o <;> simp [name]

/-- An argument is taken apart at its first equality sign, and names have none. -/
theorem splitAssignment_assign : splitAssignment (o.assign value) = some (o.name, value) := by
  rw [splitAssignment, toList_assign, List.dropWhile_append_of_pos o.ne_equals_of_mem_name,
    List.takeWhile_append_of_pos o.ne_equals_of_mem_name]
  simp

theorem assign_ne {argument : String} (h : splitAssignment argument = none) :
    o.assign value ≠ argument := by
  rintro rfl
  rw [splitAssignment_assign] at h
  cases h

theorem asksForHelp_assign : asksForHelp (o.assign value) = false := by
  have hhelp : o.assign value ≠ "--help" := o.assign_ne value (by decide)
  rw [asksForHelp, toList_assign, beq_false_of_ne hhelp]
  cases o <;> rfl

end OptionName

/-- An option that is given as one argument is taken note of, if that is possible. -/
theorem parseOptions_joined (c : Subcommand) (g : Given) (o : OptionName) (value : String)
    (rest : List String) :
    parseOptions c g (o.assign value :: rest) =
      (optionNamed c o.name).bind fun o => (g.set o value).bind fun g => parseOptions c g rest := by
  have hhelp : ¬ asksForHelp (o.assign value) = true := by
    rw [o.asksForHelp_assign]
    exact Bool.false_ne_true
  have hdashes : o.assign value ≠ "--" := o.assign_ne value (by decide)
  cases rest with
  | nil =>
    rw [parseOptions.eq_2, if_neg hhelp, if_neg hdashes, o.splitAssignment_assign]
    rfl
  | cons next rest =>
    rw [parseOptions.eq_3, if_neg hhelp, o.splitAssignment_assign]
    rfl

theorem parseOptions_assign {c : Subcommand} {g g' : Given} {o : OptionName} {value : String}
    (hname : optionNamed c o.name = some o) (hset : g.set o value = some g')
    (rest : List String) :
    parseOptions c g (o.assign value :: rest) = parseOptions c g' rest := by
  rw [parseOptions_joined, hname, Option.bind_some, hset, Option.bind_some]

/-! ### Options as arguments -/

/-- The name of a line ending. -/
def endingName : LineEnding → String
  | .crlf => "crlf"
  | .lf => "lf"

/-- Options as arguments, libraries first. -/
def arguments (o : CompileOptions) : List String :=
  o.libraries.map (OptionName.library.assign ·.text) ++
    [OptionName.script.assign o.script.text, OptionName.lineEnding.assign (endingName o.ending)]

theorem pathValue_text {p : Path} (h : p.text ≠ "") : pathValue p.text = some p := by
  have hempty : ¬ p.text.isEmpty = true := fun hempty => h (String.isEmpty_iff.mp hempty)
  rw [pathValue, if_neg hempty]

/-- Libraries that are given one after the other are all noted, in this order. -/
theorem parseOptions_libraries (c : Subcommand) {libraries : List Path}
    (h : ∀ p ∈ libraries, p.text ≠ "") (g : Given) (rest : List String) :
    parseOptions c g (libraries.map (OptionName.library.assign ·.text) ++ rest) =
      parseOptions c { g with libraries := g.libraries ++ libraries } rest := by
  induction libraries generalizing g with
  | nil => rw [List.append_nil]; rfl
  | cons p libraries ih =>
    have hset : g.set .library p.text = some { g with libraries := g.libraries ++ [p] } := by
      rw [Given.set, pathValue_text (h p List.mem_cons_self)]
      rfl
    have hrest : ∀ q ∈ libraries, q.text ≠ "" := fun q hq => h q (List.mem_cons_of_mem p hq)
    rw [List.map_cons, List.cons_append, parseOptions_assign rfl hset, ih hrest]
    simp

/-- **Options are read back.** -/
theorem parse_arguments {o : CompileOptions} (h : ∀ p ∈ o.sources, p.text ≠ "") :
    parse ("print" :: arguments o) = some (.print o) := by
  have hlibraries : ∀ p ∈ o.libraries, p.text ≠ "" :=
    fun p hp => h p (List.mem_append_left _ hp)
  have hscript : pathValue o.script.text = some o.script :=
    pathValue_text (h _ (List.mem_append_right _ (List.mem_singleton_self _)))
  let libraries : Given := { libraries := o.libraries }
  let script : Given := { libraries := o.libraries, script := some o.script }
  have hset : libraries.set .script o.script.text = some script := by
    simp [libraries, script, Given.set, hscript]
  have hending : script.set .lineEnding (endingName o.ending) =
      some { script with ending := some o.ending } := by
    obtain ⟨libraries, script, ending⟩ := o
    cases ending <;> rfl
  show parseOptions .print {} (arguments o) = _
  rw [arguments, parseOptions_libraries .print hlibraries]
  show parseOptions .print libraries _ = _
  rw [parseOptions_assign rfl hset, parseOptions_assign rfl hending]
  rfl

/-! ### One more output -/

/-- The invocation with an output, if there is something to put there. -/
def Invocation.withOut (out : Path) : Invocation → Invocation
  | .version => .version
  | .help => .help
  | .print options => .compile options out
  | .compile options out => .compile options out

namespace Given

variable (g : Given) (out : Path)

/-- An output is given as well. -/
def withOut : Given := { g with out := some out }

/-- No other option notices the output. -/
theorem set_withOut {o : OptionName} (h : o ≠ .out) (value : String) :
    (g.withOut out).set o value = (g.set o value).map (withOut · out) := by
  cases o with
  | script => by_cases hs : g.script.isSome = true <;> simp [set, withOut, hs, Function.comp_def]
  | library => simp [set, withOut, Function.comp_def]
  | lineEnding => by_cases he : g.ending.isSome = true <;> simp [set, withOut, he, Function.comp_def]
  | out => exact absurd rfl h

/-- There cannot be two outputs. -/
theorem set_out_withOut (value : String) : (g.withOut out).set .out value = none := rfl

theorem invocation_withOut :
    (g.withOut out).invocation .compile = (g.invocation .print).map (Invocation.withOut out) := by
  simp only [invocation, withOut]
  cases g.script <;> rfl

end Given

/-- To print, the same options are known but for the output. -/
theorem optionNamed_print (name : String) :
    optionNamed .print name = (optionNamed .compile name).filter (· != .out) := by
  unfold optionNamed
  split <;> rfl

/-- An option that is named by an argument, with or without the output. -/
theorem set_named_withOut (g : Given) (out : Path) (name value : String)
    {next next' : Given → Option Invocation}
    (hnext : ∀ g : Given, next (g.withOut out) = (next' g).map (Invocation.withOut out)) :
    ((optionNamed .compile name).bind fun o => ((g.withOut out).set o value).bind next) =
      ((optionNamed .print name).bind fun o => (g.set o value).bind next').map
        (Invocation.withOut out) := by
  rw [optionNamed_print]
  cases optionNamed .compile name with
  | none => rfl
  | some o =>
    by_cases ho : o = .out
    · -- one subcommand does not know the name, the other has the option already
      rw [ho, Option.bind_some, g.set_out_withOut]
      rfl
    · rw [Option.filter_some, if_pos (bne_iff_ne.mpr ho), Option.bind_some, Option.bind_some,
        g.set_withOut out ho]
      cases g.set o value with
      | none => rfl
      | some g' => exact hnext g'

/-- **Parsing does not notice the output**, along whichever way it reads the arguments. -/
theorem parseOptions_withOut (g : Given) (out : Path) (arguments : List String) :
    parseOptions .compile (g.withOut out) arguments =
      (parseOptions .print g arguments).map (Invocation.withOut out) := by
  induction g, arguments using parseOptions.induct with
  | case1 g => exact g.invocation_withOut out
  | case2 g argument hhelp =>
    rw [parseOptions.eq_2, parseOptions.eq_2, if_pos hhelp, if_pos hhelp]
    rfl
  | case3 g hhelp =>
    rw [parseOptions.eq_2, parseOptions.eq_2, if_neg hhelp, if_neg hhelp, if_pos rfl, if_pos rfl]
    exact g.invocation_withOut out
  | case4 g argument hhelp hdashes =>
    rw [parseOptions.eq_2, parseOptions.eq_2, if_neg hhelp, if_neg hhelp, if_neg hdashes,
      if_neg hdashes]
    cases splitAssignment argument with
    | none => rfl
    | some assignment =>
      exact set_named_withOut g out assignment.1 assignment.2 fun g => g.invocation_withOut out
  | case5 g argument value rest hhelp =>
    rw [parseOptions.eq_3, parseOptions.eq_3, if_pos hhelp, if_pos hhelp]
    rfl
  | case6 g argument value rest hhelp name assigned hsplit ih =>
    rw [parseOptions.eq_3, parseOptions.eq_3, if_neg hhelp, if_neg hhelp, hsplit]
    exact set_named_withOut g out name assigned ih
  | case7 g argument value rest hhelp hsplit ih =>
    rw [parseOptions.eq_3, parseOptions.eq_3, if_neg hhelp, if_neg hhelp, hsplit]
    by_cases hvalue : looksLikeOption value = true
    · -- both refuse the value, whether or not they know the option
      simp only [if_pos hvalue]
      cases optionNamed .compile argument <;> cases optionNamed .print argument <;> rfl
    · simp only [if_neg hvalue]
      exact set_named_withOut g out argument value ih

/-- **An output makes the one subcommand out of the other.** -/
theorem parse_compile {out : Path} (h : out.text ≠ "") (arguments : List String) :
    parse ("compile" :: OptionName.out.assign out.text :: arguments) =
      (parse ("print" :: arguments)).map (Invocation.withOut out) := by
  have hset : Given.set {} .out out.text = some (Given.withOut {} out) := by
    rw [Given.set, pathValue_text h]
    rfl
  show parseOptions .compile {} _ = (parseOptions .print {} arguments).map _
  rw [parseOptions_assign rfl hset]
  exact parseOptions_withOut {} out arguments

end CommandLine

end Storyboard
