import DotGraph.Attribute.Value

/-! Declared attributes: the name of each and the values it takes. -/

namespace DotGraph

/-- The four kinds of attribute, by name. -/
inductive AttrKind where
  | string
  | number
  | bool
  | choice
  deriving DecidableEq

namespace AttrKind

def vocabulary : Vocabulary where
  name := "AttrKind"
  words := [("STRING", "string"), ("NUMBER", "number"), ("BOOL", "bool"), ("ENUM", "enum")]
  distinct := by decide

def text : AttrKind → String
  | string => "string"
  | number => "number"
  | bool => "bool"
  | choice => "enum"

def named? : String → Option AttrKind
  | "STRING" => some string
  | "NUMBER" => some number
  | "BOOL" => some bool
  | "ENUM" => some choice
  | _ => none

end AttrKind

/-- The values an attribute takes. -/
inductive AttrDomain where
  | strings
  | numbers
  | flags
  | choices (v : Vocabulary)
  deriving DecidableEq

namespace AttrDomain

def kind : AttrDomain → AttrKind
  | strings => .string
  | numbers => .number
  | flags => .bool
  | choices _ => .choice

def vocabulary? : AttrDomain → Option Vocabulary
  | choices v => some v
  | _ => none

/-- What a message says was expected. -/
def expected : AttrDomain → String
  | choices v => v.name
  | d => d.kind.text

end AttrDomain

/-- The name under which a value is refused is shown as it was given. -/
inductive AttrError where
  | undeclared (owner : String) (name : Datum)
  | notAKey (given : Datum)
  | notFinite (given name : Datum)
  | notAmong (given name : Datum) (choices : List String)
  | unexpected (given name : Datum) (expected : String)

namespace AttrError

def message : AttrError → String
  | undeclared owner name => "Unknown " ++ owner ++ " attribute: " ++ name.shown
  | notAKey given => "unhashable type: " ++ Text.quoted given.kindName
  | notFinite given name =>
    "Invalid value " ++ given.shown ++ " for attribute " ++ name.shown ++ "; number must be finite"
  | notAmong given name choices =>
    "Invalid value " ++ given.shown ++ " for attribute " ++ name.shown ++ "; expected one of: " ++
      ", ".intercalate choices
  | unexpected given name expected =>
    "Invalid value " ++ given.shown ++ " for attribute " ++ name.shown ++ "; expected " ++ expected

/-- Whether all that the message shows has a text. -/
def isTold : AttrError → Bool
  | undeclared _ name => name.isShown
  | notAKey _ => true
  | notFinite given name => given.isShown && name.isShown
  | notAmong given name _ => given.isShown && name.isShown
  | unexpected given name _ => given.isShown && name.isShown

end AttrError

namespace AttrDomain

/-- A vocabulary belongs to an attribute of the kind `choice`, and to no other. -/
structure DeclarationError where
  name : Datum

def DeclarationError.message (e : DeclarationError) : String :=
  "Attribute " ++ e.name.shown ++ ": enum kind requires choices"

/-- The values of an attribute that is declared under a name. -/
def declare (name : Datum) (kind : AttrKind) (vocabulary : Option Vocabulary) :
    Except DeclarationError AttrDomain :=
  match kind, vocabulary with
  | .string, none => .ok strings
  | .number, none => .ok numbers
  | .bool, none => .ok flags
  | .choice, some v => .ok (choices v)
  | _, _ => .error ⟨name⟩

/-- The stored form of a value: a text that names a choice becomes that choice. -/
def coerce (d : AttrDomain) (name given : Datum) : Except AttrError AttrValue :=
  match d, given with
  | .strings, .text s => .ok (.text s)
  | .flags, .flag b => .ok (.flag b)
  | .numbers, .integer n => .ok (.integer n)
  | .numbers, .float (.finite x) => .ok (.float x)
  | .numbers, .float _ => .error (.notFinite given name)
  | .choices v, .token t =>
    if t ∈ v.tokens then .ok (.token t) else .error (.unexpected given name d.expected)
  | .choices v, .text s =>
    match v.token? s with
    | some t => .ok (.token t)
    | none => .error (.notAmong given name v.values)
  | _, _ => .error (.unexpected given name d.expected)

end AttrDomain

structure AttrSpec where
  name : String
  domain : AttrDomain
  deriving DecidableEq

namespace AttrSpec

def coerce (spec : AttrSpec) (given : Datum) : Except AttrError AttrValue :=
  spec.domain.coerce (.text spec.name) given

end AttrSpec

end DotGraph
