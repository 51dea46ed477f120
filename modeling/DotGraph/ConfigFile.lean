import DotGraph.Json.Datum
import DotGraph.Json.Printer
import DotGraph.Json.Reader
import DotGraph.RenderConfig

/-! The file in which a project keeps its render options. -/

namespace DotGraph.ConfigFile

def folder : String := ".dot-builder"

def name : String := "config.json"

def toJson (c : RenderConfig) : Json :=
  .object [("indent", .text c.indent), ("port_separator", .text c.portSeparator.text)]

/-- What is written into the file. -/
def text (c : RenderConfig) : String :=
  (toJson c).toText (.broken "  ") ++ "\n"

/-- Why a text does not say which options a project has. -/
inductive ReadError where
  | unreadable (e : Json.ReadError)
  | notAnObject
  | config (e : RenderConfig.Error)

def ReadError.message : ReadError → String
  | .unreadable e => e.message
  | .notAnObject => "not an object"
  | .config e => e.message

def givenOf : Json → RenderConfig.Given
  | .text s => .ofText s
  | value => ⟨none, some value.shown⟩

/-- Options that are not in the file have their default; other members do not matter. -/
def ofJson : Json → Except ReadError RenderConfig
  | .object members =>
    match RenderConfig.ofOptions ((Entries.get? "indent" members).map givenOf)
        ((Entries.get? "port_separator" members).map givenOf) with
    | .ok c => .ok c
    | .error e => .error (.config e)
  | _ => .error .notAnObject

def read (content : String) : Except ReadError RenderConfig :=
  match Json.read content with
  | .error e => .error (.unreadable e)
  | .ok value => ofJson value

/-- The options of a project whose file has this content, if there is one. -/
def readOrDefault : Option String → Except ReadError RenderConfig
  | none => .ok .default
  | some content => read content

end DotGraph.ConfigFile
