import DotGraph.Binary64.Numeral
import DotGraph.Datum.Product
import DotGraph.RenderConfig
import DotGraph.Script
import DotGraph.Store.Edit
import DotGraph.Vocabulary.Catalogue

/-!
Names, and the values of expressions under them.  Evaluation reads the store only for the texts
that objects show.  A record keeps one field for keys that are equal as values.
-/

namespace DotGraph

inductive ScriptError where
  | build (e : BuildError)
  | config (e : RenderConfig.Error)
  | unbound (name : String)
  | numeral (e : Text.NumeralError)
  | unknownWord (vocabulary name : String)
  /-- The thing has no such operation. -/
  | unsupported
  /-- The operation exists, but takes no such value. -/
  | unsuitable
  | unknownKind (given : Datum)
  | product (e : ProductError)
  | notAStatement (kind : String)
  /-- Links lead back to where they started. -/
  | endless

def ScriptError.message : ScriptError → String
  | build e => e.message
  | config e => e.message
  | unbound name => "nothing is called " ++ Text.quoted name
  | numeral e => e.message
  | unknownWord vocabulary name => "no word: " ++ vocabulary ++ "." ++ name
  | unsupported => "no such operation"
  | unsuitable => "no such value"
  | unknownKind given => "no kind of defaults: " ++ given.shown
  | product e => e.message
  | notAStatement kind => "Unknown statement type: " ++ kind
  | endless => "the graph contains itself"

/-- Whether all that the message shows has a text. -/
def ScriptError.isTold : ScriptError → Bool
  | build e => e.isTold
  | config e => e.isTold
  | _ => true

/-- A refusal that would show what has no text is told as the lack of that text. -/
def ScriptError.told (e : ScriptError) : ScriptError :=
  if e.isTold then e else unsupported

namespace Argument

def asObject : Argument → Except ScriptError Object
  | object o => .ok o
  | datum _ => .error .unsupported

def asBody (given : Argument) : Except ScriptError BodyRef := do
  match (← given.asObject).body? with
  | some b => return b
  | none => throw .unsupported

end Argument

/-- Names in the order in which they were first bound. -/
abbrev Names := Entries String Argument

namespace Names

def given? (names : Names) (on : String) : Except ScriptError Argument :=
  match Entries.get? on names with
  | some given => .ok given
  | none => .error (.unbound on)

def object? (names : Names) (on : String) : Except ScriptError Object := do
  (← names.given? on).asObject

def body? (names : Names) (on : String) : Except ScriptError BodyRef := do
  (← names.given? on).asBody

/-- The first name of an object. -/
def nameOf? (names : Names) (o : Object) : Option String :=
  names.findSome? fun entry =>
    match entry.2 with
    | .object o' => if o' = o then some entry.1 else none
    | .datum _ => none

end Names

namespace Expr

def evalInteger (numeral : String) : Except ScriptError Datum :=
  match Text.wholeNumber numeral with
  | .ok n => .ok (.integer n)
  | .error e => .error (.numeral e)

def evalFloat (numeral : String) : Except ScriptError Datum :=
  match Binary64.ofText numeral with
  | .ok x => .ok (.float x)
  | .error e => .error (.numeral e)

def evalWord (vocabulary name : String) : Except ScriptError Datum :=
  match (Vocabulary.find? vocabulary).bind fun v => v.named? name with
  | some t => .ok (.token t)
  | none => .error (.unknownWord vocabulary name)

mutual

def eval (σ : Store) (names : Names) : Expr → Except ScriptError Argument
  | datum d => .ok (.datum d)
  | integer numeral => do return .datum (← evalInteger numeral)
  | float numeral => do return .datum (← evalFloat numeral)
  | word vocabulary name => do return .datum (← evalWord vocabulary name)
  | named x =>
    match Entries.get? x names with
    | some a => .ok a
    | none => .error (.unbound x)
  | nodeId name port => do
    let name ← eval σ names name
    let port ← eval σ names port
    match NodeId.ofDatum (name.toDatum σ) (port.toDatum σ) with
    | .ok id => return .datum (.nodeId id)
    | .error e => throw (.build (.naming e))
  | list items => do return .datum (.list (← evalItems σ names items))
  | tuple items => do return .datum (.tuple (← evalItems σ names items))
  | record fields => do return .datum (.record (← evalFields σ names [] fields))

def evalItems (σ : Store) (names : Names) : List Expr → Except ScriptError (List Datum)
  | [] => .ok []
  | item :: rest => do
    let item ← eval σ names item
    return item.toDatum σ :: (← evalItems σ names rest)

/-- The fields of a record, entered one after the other behind those that are there. -/
def evalFields (σ : Store) (names : Names) (fields : Entries Datum Datum) :
    List (Expr × Expr) → Except ScriptError (Entries Datum Datum)
  | [] => .ok fields
  | (key, value) :: rest => do
    let key ← eval σ names key
    let value ← eval σ names value
    if !(key.toDatum σ).isHashable then throw .unsuitable
    evalFields σ names (fields.put (key.toDatum σ) (value.toDatum σ)) rest

end

/-- The value, in which an object comes with the text that it shows now. -/
def evalDatum (σ : Store) (names : Names) (e : Expr) : Except ScriptError Datum := do
  return (← e.eval σ names).toDatum σ

def evalAttrs (σ : Store) (names : Names) (attrs : AttrExprs) :
    Except ScriptError (Entries String Datum) :=
  attrs.mapM fun entry => do return (entry.1, ← entry.2.evalDatum σ names)

end Expr

namespace ConfigExpr

def evalOption (σ : Store) (names : Names) : Option Expr → Except ScriptError (Option Datum)
  | none => .ok none
  | some e => do return some (← e.evalDatum σ names)

/-- What is not given is taken from the default. -/
def eval (σ : Store) (names : Names) : Option ConfigExpr → Except ScriptError RenderConfig
  | none => .ok .default
  | some c => do
    let indent ← evalOption σ names c.indent
    let portSeparator ← evalOption σ names c.portSeparator
    match RenderConfig.ofOptions (indent.map .ofDatum) (portSeparator.map .ofDatum) with
    | .ok config => return config
    | .error e => throw (.config e)

end ConfigExpr

end DotGraph
