import DotGraph.CommandLine
import DotGraph.Dot
import DotGraph.Example
import DotGraph.Files
import DotGraph.Json.Graph
import DotGraph.Network.Import
import DotGraph.Network.NodeLink
import DotGraph.Project
import DotGraph.Text.Terminal

/-!
Commands: what each one prints, writes and tells, as a function of its command line and of the files
around it.
-/

namespace DotGraph

/-- What stops a command without a report of its own. -/
inductive Abort where
  | nullNode
  | noRecord
  /-- Half of a surrogate pair in a text: what comes of it is left open here. -/
  | torn
  | tooManyDigits (count : Nat)
  | nullCharacter
  | nameTooLong (path : String)
  | missingDirectory (path : String)
  | notADirectory (path : String)
  | isADirectory (path : String)
  | fileExists (path : String)
  deriving DecidableEq

namespace Abort

def message : Abort → String
  | nullNode => Network.KeyError.null.message
  | noRecord => "the data of the graph are not a record"
  | torn => Network.NodeLinkError.torn.message
  | tooManyDigits count => (Json.ReadError.tooManyDigits count).message
  | nullCharacter => "a path has no null character"
  | nameTooLong path => "File name too long: " ++ Text.quoted path
  | missingDirectory path => "No such file or directory: " ++ Text.quoted path
  | notADirectory path => "Not a directory: " ++ Text.quoted path
  | isADirectory path => "Is a directory: " ++ Text.quoted path
  | fileExists path => "File exists: " ++ Text.quoted path

end Abort

inductive Ending where
  | success
  | failure
  /-- The command line does not say what to do. -/
  | usage
  | abort (a : Abort)
  deriving DecidableEq

namespace Ending

def exitCode : Ending → Nat
  | success => 0
  | failure => 1
  | usage => 2
  | abort _ => 1

end Ending

/-- What a command does: what it prints, what it tells when asked to, and which texts it writes. -/
structure Outcome where
  ending : Ending
  output : String
  log : List String
  writes : List (List String × String)

namespace Outcome

def printed (output : String) : Outcome := ⟨.success, output, [], []⟩

def report (message : String) (log : List String) : Outcome :=
  ⟨.failure, "Error: " ++ message ++ "\n", log, []⟩

def usage : Outcome := ⟨.usage, "", [], []⟩

def abort (a : Abort) (log : List String) : Outcome := ⟨.abort a, "", log, []⟩

end Outcome

/-- Why a command cannot go on. -/
inductive Trouble where
  | report (message : String)
  | abort (a : Abort)

namespace Trouble

/-- Options that cannot be read are reported; a file that cannot be got at is not. -/
def ofProject : Project.Error → Trouble
  | .content e => report ("Invalid config file: " ++ e.message)
  | .uninitialized path => abort (.missingDirectory path)
  | .absent path => abort (.missingDirectory path)
  | .tooLong path => abort (.nameTooLong path)
  | .blocked path => abort (.notADirectory path)
  | .folderTaken path => abort (.fileExists path)
  | .isDirectory path => abort (.isADirectory path)
  | .nullCharacter => abort .nullCharacter

def outcome (log : List String) : Trouble → Outcome
  | report message => .report message log
  | abort a => .abort a log

end Trouble

/-- The working directory: the path of it, and the files there. -/
structure Setting where
  directory : String
  files : Files

/-- The project is the working directory. -/
def Setting.project (s : Setting) : Project :=
  ⟨s.directory, ""⟩

namespace Command

/-! ### What is told -/

def creationLine (c : Creation) : String :=
  "dot_builder.models: Created subgraph " ++
    (match c.name with
      | none => "<anonymous>"
      | some name => name.text) ++
    " (" ++ toString c.size ++ " statements, appended=" ++ Datum.flagText c.appended ++ ")"

def exportLine (σ : Store) (r : RootId) : String :=
  "dot_builder.exporters.dot: Exporting " ++ (σ.rootShown? r).getD ""

/-! ### Files -/

/-- The place to write a text; the directory it goes to has to be there. -/
def target (files : Files) (path : String) : Except Trouble (List String) :=
  if Files.pathLimit < (Files.plainPath path).utf8ByteSize then
    .error (.abort (.nameTooLong path))
  else
  match files.walk [] (Files.parts path) with
  | .error .missing => .error (.abort (.missingDirectory path))
  | .error .tooLong => .error (.abort (.nameTooLong path))
  | .error _ => .error (.abort (.notADirectory path))
  | .ok here =>
    match files.node? here with
    | some .directory => .error (.abort (.isADirectory path))
    | _ => .ok here

def config (s : Setting) : Except Trouble RenderConfig :=
  match s.project.loadOrDefault s.files with
  | .ok c => .ok c
  | .error e => .error (.ofProject e)

/-- Prints a text, or writes it to a file and says so. -/
def deliver (files : Files) (text : String) (output : Option String) (log : List String) :
    Outcome :=
  match output with
  | none => ⟨.success, text, log, []⟩
  | some "" => ⟨.success, text, log, []⟩
  | some path =>
    match target files path with
    | .ok here => ⟨.success, "Wrote " ++ path ++ "\n", log, [(here, text)]⟩
    | .error trouble => trouble.outcome log

/-! ### Commands -/

def version : String := "dot-builder, version 0.1.0\n"

def help : String :=
  "Usage: dot-builder [--version] [--verbose] [--help] COMMAND\n\n" ++
  "  init [--indent 0..8] [--colon-ports]\n" ++
  "  examples\n" ++
  "  render NAME [--format dot|json] [--output FILE]\n" ++
  "  convert FILE [--name NAME] [--strict] [--output FILE]\n"

def examples : String :=
  String.join <| Example.all.map fun e =>
    e.name ++ Text.times (15 - e.name.length) " " ++ " " ++ e.summary ++ "\n"

def initConfig (indent : Nat) (colonPorts : Bool) : RenderConfig :=
  ⟨Text.times indent " ", if colonPorts then .colon else .space, by
    have h (n : Nat) : isBlank (Text.times n " ") = true := by
      induction n with
      | zero => rfl
      | succ n ih => simp_all [Text.times_succ, isBlank]
    exact h indent⟩

/-- Says whether there was a file before. -/
def init (s : Setting) (indent : Nat) (colonPorts : Bool) : Outcome :=
  let p := s.project
  let c := initConfig indent colonPorts
  match p.isInitialized s.files, (p.save s.files c).2 with
  | .error e, _ => (Trouble.ofProject e).outcome []
  | _, .error e => (Trouble.ofProject e).outcome []
  | .ok already, .ok _ =>
    let done := if already then "Configuration updated: " else "Initialized dot-builder config: "
    ⟨.success, done ++ p.shownFile ++ "\n", [], [(Files.parts p.file, ConfigFile.text c)]⟩

def endless : String := "the graph contains itself"

def writeDot (s : Setting) (σ : Store) (r : RootId) (output : Option String)
    (log : List String) : Outcome :=
  match config s with
  | .error trouble => trouble.outcome log
  | .ok c =>
    match σ.dot? r c with
    | none => .report endless log
    | some text => deliver s.files text output (log ++ [exportLine σ r])

def writeJson (files : Files) (σ : Store) (r : RootId) (output : Option String)
    (log : List String) : Outcome :=
  match σ.json? r with
  | none => .report endless log
  | some value => deliver files (value.toText (.broken "  ") ++ "\n") output log

def render (s : Setting) (name : String) (format : OutputFormat) (output : Option String) :
    Outcome :=
  match Example.named? name with
  | none =>
    .report ("Unknown example " ++ Text.quoted name ++ ". Run \x60dot-builder examples\x60.") []
  | some e =>
    match e.graph Example.defaultCount with
    | .error err => .report err.message []
    | .ok (σ, r) =>
      let log := σ.creations.map creationLine
      match format with
      | .dot => writeDot s σ r output log
      | .json => writeJson s.files σ r output log

/-- A null node, a torn text and a whole number that is too long are not reported, all else that is
wrong with the text is. -/
def readNetwork (file content : String) : Except Trouble Network :=
  let unreadable (message : String) : Trouble :=
    .report ("Cannot read node-link graph from " ++ file ++ ": " ++ message)
  match Json.read content with
  | .error (.tooManyDigits count) => .error (.abort (.tooManyDigits count))
  | .error e => .error (unreadable e.message)
  | .ok value =>
    match Network.ofNodeLink value with
    | .ok n => .ok n
    | .error (.key .null) => .error (.abort .nullNode)
    | .error .torn => .error (.abort .torn)
    | .error e => .error (unreadable e.message)

def graphOf (n : Network) (name : Option String) (strict : Bool) :
    Except Trouble (Store × RootId) :=
  match n.toGraph ((name.map Datum.text).getD .absent) (.flag strict) with
  | .ok found => .ok found
  | .error (.build e) => .error (.report e.message)
  | .error .noRecord => .error (.abort .noRecord)

def convert (s : Setting) (file content : String) (name : Option String) (strict : Bool)
    (output : Option String) : Outcome :=
  match readNetwork file content with
  | .error trouble => trouble.outcome []
  | .ok n =>
    match graphOf n name strict with
    | .error trouble => trouble.outcome []
    | .ok (σ, r) => writeDot s σ r output []

/-- A directory is no place for output. -/
def refusesOutput (files : Files) (output : Option String) : Bool :=
  output.any fun path => files.place path = .directory

def run (s : Setting) : Invocation → Outcome
  | .version => .printed version
  | .help => .printed help
  | .init indent colonPorts => init s indent colonPorts
  | .examples => .printed examples
  | .render name format output =>
    if refusesOutput s.files output then .usage else render s name format output
  | .convert file name strict output =>
    if refusesOutput s.files output then .usage
    else if Files.hasNull file then .abort .nullCharacter []
    else
      match s.files.place file with
      | .file content => convert s file content name strict output
      | _ => .usage

/-- Runs a command line.  Unless it asks to be told, nothing is told; what is printed has no control
sequences, what is written to a file keeps them. -/
def runLine (s : Setting) (words : List String) : Outcome :=
  match Invocation.read words with
  | .error .usage => .usage
  | .error .nullCharacter => .abort .nullCharacter []
  | .ok (verbose, invocation) =>
    let o := run s invocation
    { o with output := Text.printed o.output, log := if verbose then o.log else [] }

/-- The files that a command line looks at. -/
def paths (s : Setting) (words : List String) : List String :=
  let config := s.project.file
  match Invocation.read words with
  | .ok (_, .init _ _) => [config]
  | .ok (_, .render _ _ output) => config :: output.toList
  | .ok (_, .convert file _ _ output) => config :: file :: output.toList
  | _ => []

end Command

end DotGraph
