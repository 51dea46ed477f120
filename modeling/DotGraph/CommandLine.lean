import DotGraph.Files
import DotGraph.Text.WholeNumber

/-!
Command lines.  Options have long names and stand anywhere among the arguments of a command; those
of the program as a whole stand before the command.  Of an option given twice the last value counts.
Values are looked at in the order in which the options were given, and arguments after them.
-/

namespace DotGraph

structure OptionSpec where
  name : String
  takesValue : Bool

/-- Options as they were given, and what else there was. -/
structure Arguments where
  options : List (String × String)
  rest : List String

namespace Arguments

def empty : Arguments := ⟨[], []⟩

def option (name value : String) (args : Arguments) : Arguments :=
  { args with options := (name, value) :: args.options }

def positional (word : String) (args : Arguments) : Arguments :=
  { args with rest := word :: args.rest }

/-- An option and the value attached to it. -/
def splitOption (word : String) : String × Option String :=
  let chars := word.toList
  let name := String.ofList (chars.takeWhile (· ≠ '='))
  match chars.dropWhile (· ≠ '=') with
  | [] => (name, none)
  | _ :: value => (name, some (String.ofList value))

def looksLikeOption (word : String) : Bool :=
  match word.toList with
  | '-' :: _ :: _ => true
  | _ => false

/-- Reads options up to the end, or up to two dashes.  Unless they may be interspersed, the first
word that is none ends them too. -/
def read? (specs : List OptionSpec) (interspersed : Bool) : List String → Option Arguments
  | [] => some empty
  | word :: words =>
    if word = "--" then some ⟨[], words⟩
    else if looksLikeOption word then
      let (name, attached) := splitOption word
      match specs.find? fun spec => spec.name == name with
      | none => none
      | some ⟨_, false⟩ =>
        if attached.isSome then none
        else (read? specs interspersed words).map (option name "")
      | some ⟨_, true⟩ =>
        match attached with
        | some value => (read? specs interspersed words).map (option name value)
        | none =>
          match words with
          | [] => none
          | value :: words => (read? specs interspersed words).map (option name value)
    else if interspersed then (read? specs interspersed words).map (positional word)
    else some ⟨[], word :: words⟩

def has (args : Arguments) (name : String) : Bool :=
  args.options.any fun o => o.1 == name

def value? (args : Arguments) (name : String) : Option String :=
  (args.options.reverse.find? fun o => o.1 == name).map Prod.snd

end Arguments

/-- Why a command line is not carried out. -/
inductive Refusal where
  /-- It does not say what to do. -/
  | usage
  /-- A path in it can be no path. -/
  | nullCharacter
  deriving DecidableEq

def orUsage {α : Type} : Option α → Except Refusal α
  | some a => .ok a
  | none => .error .usage

inductive OutputFormat where
  | dot
  | json
  deriving DecidableEq

/-- What the program is asked to do. -/
inductive Invocation where
  | version
  | help
  | init (indent : Nat) (colonPorts : Bool)
  | examples
  | render (name : String) (format : OutputFormat) (output : Option String)
  | convert (file : String) (name : Option String) (strict : Bool) (output : Option String)

namespace Invocation

def flag (name : String) : OptionSpec := ⟨name, false⟩

def valued (name : String) : OptionSpec := ⟨name, true⟩

/-- From no space to eight. -/
def indentOf? : Option String → Option Nat
  | none => some 2
  | some text =>
    match Text.wholeNumber text with
    | .ok n => if 0 ≤ n ∧ n ≤ 8 then some n.toNat else none
    | .error _ => none

def formatOf? : Option String → Option OutputFormat
  | none => some .dot
  | some "dot" => some .dot
  | some "json" => some .json
  | some _ => none

/-- Of several options that are refused the one given first counts. -/
def checkOptions (args : Arguments) (refusal? : String → Option Refusal) : Except Refusal Unit :=
  match args.options.findSome? fun o => refusal? o.1 with
  | some refusal => .error refusal
  | none => .ok ()

def formatRefusal? (args : Arguments) : Option Refusal :=
  if (formatOf? (args.value? "--format")).isNone then some .usage else none

def outputRefusal? (args : Arguments) : Option Refusal :=
  if (args.value? "--output").any Files.hasNull then some .nullCharacter else none

def initOf (args : Arguments) : Except Refusal Invocation :=
  match args.rest with
  | [] => do
    return init (← orUsage (indentOf? (args.value? "--indent"))) (args.has "--colon-ports")
  | _ => .error .usage

def examplesOf (args : Arguments) : Except Refusal Invocation :=
  match args.rest with
  | [] => .ok examples
  | _ => .error .usage

def renderOf (args : Arguments) : Except Refusal Invocation := do
  checkOptions args fun
    | "--format" => formatRefusal? args
    | "--output" => outputRefusal? args
    | _ => none
  match args.rest with
  | [name] =>
    return render name (← orUsage (formatOf? (args.value? "--format"))) (args.value? "--output")
  | _ => throw .usage

/-- The file is looked at before it is found that there are more arguments. -/
def convertOf (args : Arguments) : Except Refusal Invocation := do
  checkOptions args fun
    | "--output" => outputRefusal? args
    | _ => none
  match args.rest with
  | [] => throw .usage
  | [file] =>
    return convert file (args.value? "--name") (args.has "--strict") (args.value? "--output")
  | file :: _ => throw (if Files.hasNull file then .nullCharacter else .usage)

/-- Whoever asks for help gets it, whatever else is missing. -/
def orHelp (read : Arguments → Except Refusal Invocation) (args : Arguments) :
    Except Refusal Invocation :=
  if args.has "--help" then .ok help else read args

/-- The options of each command, and how what was given is read. -/
def commandOf? : String → Option (List OptionSpec × (Arguments → Except Refusal Invocation))
  | "init" => some ([valued "--indent", flag "--colon-ports"], initOf)
  | "examples" => some ([], examplesOf)
  | "render" => some ([valued "--format", valued "--output"], renderOf)
  | "convert" => some ([valued "--name", flag "--strict", valued "--output"], convertOf)
  | _ => none

def general : List OptionSpec :=
  [flag "--version", flag "--verbose", flag "--help"]

/-- The version or the help, whichever is asked for first. -/
def information? (args : Arguments) : Option Invocation :=
  match args.options.find? fun o => o.1 ≠ "--verbose" with
  | some ("--version", _) => some version
  | some _ => some help
  | none => none

/-- The version or the help, and else a command; with it, whether the program is to tell what it
does.  What should be a command and is none is looked at once more, since two dashes may have hidden
that it asks for the version or the help. -/
def read (words : List String) : Except Refusal (Bool × Invocation) := do
  let args ← orUsage (Arguments.read? general false words)
  match information? args, args.rest with
  | some answer, _ => return (false, answer)
  | none, [] => throw .usage
  | none, name :: words =>
    match commandOf? name with
    | some (specs, reading) =>
      let given ← orUsage (Arguments.read? (flag "--help" :: specs) true words)
      return (args.has "--verbose", ← orHelp reading given)
    | none =>
      let again ← orUsage (Arguments.read? general false (name :: words))
      return (false, ← orUsage (information? again))

end Invocation

end DotGraph
