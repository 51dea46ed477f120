import DotGraph.Network
import DotGraph.Session.Names
import DotGraph.Store.Operation

/-!
Edits under names.  The values of an edit are looked at before anything is written: attributes
first, then whether there is such an operation at all, then the other values in order.
-/

namespace DotGraph

/-- What a step answers. -/
inductive Answer where
  | nothing
  | made (a : Argument)
  | handle (name : Option String)
  | value (d : Datum)
  | flag (b : Bool)
  | text (s : String)
  | owner (name : Option String) (b : BodyRef)
  | members (ms : List Member)
  | network (n : Network)

abbrev Scripting := ExceptT ScriptError (StateM Store)

namespace Scripting

def building {α : Type} (step : Build α) : Scripting α :=
  ExceptT.adapt .build step

/-- Something that is found out without writing. -/
def reading {α : Type} (look : Store → Except ScriptError α) : Scripting α := do
  match look (← get) with
  | .ok a => return a
  | .error e => throw e

end Scripting

namespace Edit

open Scripting

def madeObject (o : Object) : Answer :=
  .made (.object o)

def operatorOf : Datum → Except ScriptError EdgeOperator
  | .token t => .ok (.ofToken t)
  | _ => .error .unsupported

/-- The name of a graph is looked at before its operator. -/
def checkName (given : Datum) : Scripting Unit := do
  let _ ← building (Build.liftNaming (graphName given))

def isNodeId : Argument → Bool
  | .datum (.nodeId _) => true
  | _ => false

def isVertex : Argument → Bool
  | .object (.subgraph _) => true
  | given => isNodeId given

def checkEnd (given : Argument) : Scripting Unit := do
  if !isVertex given then
    building (Build.liftStructure (.error (.vertex (given.toDatum (← get)))))

/-- An edge has to fit a subgraph at its tail before its head is looked at. -/
def checkEnds (tail head : Argument) : Scripting Unit := do
  checkEnd tail
  if isNodeId tail then checkEnd head

def kindOf (given : Datum) : Except ScriptError DefaultKind :=
  match given with
  | .token t =>
    match DefaultKind.ofToken? t with
    | some k => .ok k
    | none => .error (.unknownKind given)
  | given => .error (if given.isHashable then .unknownKind given else .unsuitable)

/-- What an edge statement is made about need not be an edge. -/
def clauseAbout : Argument → Clause
  | .object (.edge e) => .edge e
  | given => .noEdge given

/-- Where an edge can be asked for: in a body, and in an edge statement, which already has one and
makes no other. -/
def edgeHost (σ : Store) (target : Argument) : Except ScriptError (Option BodyRef) := do
  let o ← target.asObject
  match o.body?, σ.isEdgeStatement o with
  | some b, _ => return some b
  | none, true => return none
  | none, false => throw .unsupported

/-- Something that has attributes of its own. -/
def tabled (σ : Store) (target : Argument) : Except ScriptError Object := do
  let o ← target.asObject
  match σ.attrs? o with
  | some _ => return o
  | none => throw .unsupported

/-- Runs an operation, and answers with what it made. -/
def making (op : Operation) : Scripting Answer := do
  return madeObject (← building op.run)

/-- Runs an operation on something that is there, and answers with its name. -/
def altering (names : Names) (op : Operation) : Scripting Answer := do
  return .handle (names.nameOf? (← building op.run))

def run (names : Names) : Edit → Scripting Answer
  | newRoot name strict operator => do
    let name ← reading fun σ => name.evalDatum σ names
    let strict ← reading fun σ => strict.evalDatum σ names
    let operator ← reading fun σ => operator.evalDatum σ names
    checkName name
    let operator ← reading fun _ => operatorOf operator
    -- No operation asks for any of these three: anything can be given for an operator or as strict.
    return madeObject (.root (← building (Build.newRoot name strict operator)))
  | newSubgraph name operator => do
    let name ← reading fun σ => name.evalDatum σ names
    let operator ← reading fun σ => operator.evalDatum σ names
    checkName name
    let operator ← reading fun _ => operatorOf operator
    return madeObject (.subgraph (← building (Build.newSubgraph name operator)))
  | newNodeId name port => do
    return .made (← reading fun σ => (Expr.nodeId name port).eval σ names)
  | newNode given => do
    match ← reading fun σ => given.eval σ names with
    | .datum (.nodeId id) => making (.newStatement (.node id) none)
    | _ => throw .unsupported
  | newEdge tail head operator => do
    let tail ← reading fun σ => tail.eval σ names
    let head ← reading fun σ => head.eval σ names
    let operator ← reading fun σ => operator.evalDatum σ names
    checkEnds tail head
    let operator ← reading fun _ => operatorOf operator
    return madeObject (.edge (← building (Build.newEdge tail head operator)))
  | newEdgeStatement given => do
    let clause := clauseAbout (← reading fun σ => given.eval σ names)
    making (.newStatement clause none)
  | newDefaults kind standalone => do
    let kind ← reading fun σ => kind.evalDatum σ names
    let standalone ← reading fun σ => standalone.evalDatum σ names
    let kind ← reading fun _ => kindOf kind
    making (.newStatement (.defaults kind standalone) none)
  | node on name port attrs => do
    let target ← reading fun _ => names.given? on
    let attrs ← reading fun σ => Expr.evalAttrs σ names attrs
    let b ← reading fun _ => target.asBody
    let name ← reading fun σ => name.evalDatum σ names
    let port ← reading fun σ => port.evalDatum σ names
    making (.insert b (.node name port) attrs)
  | edge on tail head attrs => do
    let target ← reading fun _ => names.given? on
    let attrs ← reading fun σ => Expr.evalAttrs σ names attrs
    let b ← reading fun σ => edgeHost σ target
    let tail ← reading fun σ => tail.eval σ names
    let head ← reading fun σ => head.eval σ names
    match b with
    | some b => making (.insert b (.edge tail head) attrs)
    | none => throw .unsuitable
  | defaults on kind attrs => do
    let target ← reading fun _ => names.given? on
    let attrs ← reading fun σ => Expr.evalAttrs σ names attrs
    let b ← reading fun _ => target.asBody
    making (.insert b (.defaults kind) attrs)
  | add on statement => do
    let b ← reading fun _ => names.body? on
    let given ← reading fun σ => statement.eval σ names
    altering names (.add b given)
  | set on attrs => do
    let target ← reading fun _ => names.given? on
    let attrs ← reading fun σ => Expr.evalAttrs σ names attrs
    let o ← reading fun σ => tabled σ target
    altering names (.set o attrs)
  | unset on key => do
    let o ← reading fun σ => do tabled σ (← names.given? on)
    let key ← reading fun σ => key.evalDatum σ names
    let _ ← building (Operation.edit o (.unset key)).run
    return .nothing

end Edit

end DotGraph
