/-
Storyboard/CommandLine.lean

The command line.

Two subcommands share their options: `compile` writes a document to a file,
`print` to the standard output.  Options may stand in any order, each as
`--name value` or `--name=value`; only libraries may be given more than once.
Arguments that make no sense are refused before any file is touched.
-/
import Storyboard.Compile

namespace Storyboard

namespace CommandLine

/-! ### Invocations -/

/-- What a command line asks for. -/
inductive Invocation where
  | version
  | help
  | print (options : CompileOptions)
  | compile (options : CompileOptions) (out : Path)
  deriving DecidableEq

/-- The subcommands. -/
inductive Subcommand where
  | compile
  | print
  deriving DecidableEq

/-- The options of the subcommands. -/
inductive OptionName where
  | script
  | library
  | lineEnding
  | out
  deriving DecidableEq

/-- The options given so far. -/
structure Given where
  script : Option Path := none
  libraries : List Path := []
  ending : Option LineEnding := none
  out : Option Path := none
  deriving DecidableEq

/-! ### Options -/

/-- The option of a subcommand with a given name. -/
def optionNamed (c : Subcommand) (name : String) : Option OptionName :=
  match name with
  | "--script" => some .script
  | "--lib" => some .library
  | "--line-ending" => some .lineEnding
  | "--out" => if c = .compile then some .out else none
  | _ => none

/-- A line ending by its name. -/
def endingNamed : String → Option LineEnding
  | "crlf" => some .crlf
  | "lf" => some .lf
  | _ => none

/-- A path as an option value, which is never empty. -/
def pathValue (value : String) : Option Path :=
  if value.isEmpty then none else some ⟨value⟩

/-- Take note of an option; only libraries may be repeated. -/
def Given.set (g : Given) (o : OptionName) (value : String) : Option Given :=
  match o with
  | .script =>
    if g.script.isSome then none
    else (pathValue value).map fun p => { g with script := some p }
  | .library => (pathValue value).map fun p => { g with libraries := g.libraries ++ [p] }
  | .lineEnding =>
    if g.ending.isSome then none
    else (endingNamed value).map fun e => { g with ending := some e }
  | .out =>
    if g.out.isSome then none
    else (pathValue value).map fun p => { g with out := some p }

/-- The name and the value of `--name=value`. -/
def splitAssignment (argument : String) : Option (String × String) :=
  let chars := argument.toList
  match chars.dropWhile (· != '=') with
  | '=' :: value => some (String.ofList (chars.takeWhile (· != '=')), String.ofList value)
  | _ => none

/-- An argument that cannot be the value of the option before it.  A single hyphen
can. -/
def looksLikeOption (argument : String) : Bool :=
  argument.toList.head? == some '-' && argument != "-"

/-- The argument asks for help. -/
def asksForHelp (argument : String) : Bool :=
  argument == "--help" || ['-', 'h'].isPrefixOf argument.toList

/-! ### Parsing -/

/-- What the options of a subcommand amount to, if none that is needed is missing. -/
def Given.invocation (g : Given) (c : Subcommand) : Option Invocation := do
  let script ← g.script
  let options : CompileOptions := ⟨g.libraries, script, g.ending.getD .crlf⟩
  match c with
  | .print => pure (.print options)
  | .compile => do
    let out ← g.out
    pure (.compile options out)

/-- The options of a subcommand, onto those given before. -/
def parseOptions (c : Subcommand) : Given → List String → Option Invocation
  | g, [] => g.invocation c
  | g, [argument] =>
    if asksForHelp argument then some .help
    else if argument = "--" then g.invocation c
    else do
      let (name, value) ← splitAssignment argument
      let o ← optionNamed c name
      let g ← g.set o value
      g.invocation c
  | g, argument :: value :: rest =>
    if asksForHelp argument then some .help
    else match splitAssignment argument with
      | some (name, assigned) => do
        let o ← optionNamed c name
        let g ← g.set o assigned
        parseOptions c g (value :: rest)
      | none => do
        let o ← optionNamed c argument
        if looksLikeOption value then none
        else do
          let g ← g.set o value
          parseOptions c g rest

/-- What is asked of help: all of the program, or one subcommand, help itself among
them. -/
def parseHelp : List String → Option Invocation
  | [] => some .help
  | [name] => if name ∈ ["compile", "print", "help"] then some .help else none
  | _ => none

/-- What a command line asks for, if it makes sense. -/
def parse : List String → Option Invocation
  | [] => none
  | first :: rest =>
    if first = "compile" then parseOptions .compile {} rest
    else if first = "print" then parseOptions .print {} rest
    else if first = "--version" ∨ ['-', 'V'].isPrefixOf first.toList then some .version
    else if first = "help" then parseHelp rest
    else if asksForHelp first then some .help
    else none

/-! ### Answers -/

/-- What a program leaves behind: its exit code and its two outputs. -/
structure Report where
  code : UInt8
  stdout : String := ""
  stderr : String := ""
  deriving DecidableEq

/-- The name and version of the program. -/
def versionText : String := "osbforge 0.1.0\n"

/-- How the program is used. -/
def usageText : String :=
  "Usage: osbforge compile --script <SCRIPT> --out <OUT> [--lib <LIB>]... " ++
    "[--line-ending <crlf|lf>]\n" ++
  "       osbforge print --script <SCRIPT> [--lib <LIB>]... [--line-ending <crlf|lf>]\n" ++
  "       osbforge --version\n"

/-- The lines of a text, the last one unfinished. -/
def lines (text : String) : List String :=
  (split text.toList).map String.ofList
where
  /-- What stands between line feeds. -/
  split : List Char → List (List Char)
    | [] => [[]]
    | c :: rest =>
      if c = '\n' then [] :: split rest
      else match split rest with
        | [] => [[c]]
        | l :: more => (c :: l) :: more

/-- A text after a label, its further lines indented. -/
def indented (label margin text : String) : String :=
  label ++ String.intercalate ("\n" ++ margin) (lines text)

/-- A number as the label of a cause, right-aligned. -/
def causeLabel (n : Nat) : String :=
  let digits := toString n
  String.ofList (List.replicate (5 - digits.length) ' ') ++ digits ++ ": "

/-- The causes of a failure, each on lines of its own; several are numbered. -/
def causesText : List String → String
  | [cause] => indented "    " "    " cause ++ "\n"
  | causes =>
    String.join (causes.zipIdx.map fun (cause, n) =>
      indented (causeLabel n) "       " cause ++ "\n")

/-- The report of a run that failed. -/
def failureReport (script : Path) (e : Failure) : Report where
  code := 1
  stderr := "Error: compile '" ++ script.text ++ "'\n\nCaused by:\n" ++
    causesText (e.message :: e.causes)

/-- What is said of a document that was written. -/
def writtenText (out : Path) (o : Compiled) : String :=
  "wrote " ++ out.text ++ " (" ++ toString o.sprites ++ " sprites, " ++
    toString o.records ++ " records)\n"

/-! ### Execution -/

variable {m : Type → Type} [Monad m] [Disk m]

/-- Do what a command line asks for. -/
def perform (processId : String) : Invocation → m Report
  | .version => pure { code := 0, stdout := versionText }
  | .help => pure { code := 0, stdout := usageText }
  | .print options => do
    let run ← Compile.toText options
    match run.outcome with
    | .ok o => pure { code := 0, stdout := o.text }
    | .error e => pure (failureReport options.script e)
  | .compile options out => do
    let run ← Compile.toFile processId options out
    match run.outcome with
    | .ok o => pure { code := 0, stderr := writtenText out o }
    | .error e => pure (failureReport options.script e)

/-- Run the program with the given arguments. -/
def run (processId : String) (arguments : List String) : m Report :=
  match parse arguments with
  | some invocation => perform processId invocation
  | none => pure { code := 2, stderr := usageText }

end CommandLine

end Storyboard
