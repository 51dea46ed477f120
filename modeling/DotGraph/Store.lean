import DotGraph.Attribute.Table
import DotGraph.Naming

/-!
The store of everything that has been made: root graphs, subgraphs, statements and attribute
tables, each under an id of its own that no later step changes.  A subgraph may be written in
several places, a table may be held by several statements, and what owns a statement is kept both
in the owner's list and with the statement.
-/

namespace DotGraph

/-- What a caller hands to an operation: a value, or an object of the store. -/
inductive Argument where
  | datum (d : Datum)
  | object (o : Object)

/-- What a statement says, apart from its attributes. -/
inductive Clause where
  | node (id : NodeId)
  | edge (e : Edge)
  | defaults (kind : DefaultKind) (standalone : Datum)
  /-- A statement about something in the place of an edge: no body takes it. -/
  | noEdge (given : Argument)

structure Statement where
  clause : Clause
  table : TableId
  parent : Option BodyRef

structure Body where
  name : Option Identifier
  operator : EdgeOperator
  table : TableId
  members : List Member

/-- Whether a root graph is strict is kept as it was given. -/
structure Root where
  body : Body
  strict : Datum

structure Subgraph where
  body : Body
  parent : Option BodyRef

/-- A note on a subgraph made in a body: how many statements it had, and whether it was appended. -/
structure Creation where
  name : Option Identifier
  size : Nat
  appended : Bool

structure Store where
  tables : Array AttrTable
  roots : Array Root
  subgraphs : Array Subgraph
  statements : Array Statement
  edgeCount : Nat
  creations : List Creation

namespace Store

def empty : Store :=
  ⟨#[], #[], #[], #[], 0, []⟩

def table? (σ : Store) (t : TableId) : Option AttrTable :=
  σ.tables[t.index]?

def root? (σ : Store) (r : RootId) : Option Root :=
  σ.roots[r.index]?

def subgraph? (σ : Store) (s : SubgraphId) : Option Subgraph :=
  σ.subgraphs[s.index]?

def statement? (σ : Store) (i : StatementId) : Option Statement :=
  σ.statements[i.index]?

def body? (σ : Store) : BodyRef → Option Body
  | .root r => (σ.root? r).map Root.body
  | .subgraph s => (σ.subgraph? s).map Subgraph.body

def members (σ : Store) (b : BodyRef) : List Member :=
  ((σ.body? b).map Body.members).getD []

/-- The body that owns a statement, once one does. -/
def parent? (σ : Store) : Member → Option BodyRef
  | .statement i => (σ.statement? i).bind Statement.parent
  | .subgraph s => (σ.subgraph? s).bind Subgraph.parent

/-- The table that a body or statement holds; an edge has none apart from its statement's. -/
def tableId? (σ : Store) : Object → Option TableId
  | .root r => (σ.root? r).map fun g => g.body.table
  | .subgraph s => (σ.subgraph? s).map fun g => g.body.table
  | .statement i => (σ.statement? i).map Statement.table
  | .edge _ => none

/-- The table that an object holds, with what it says. -/
def held? (σ : Store) (o : Object) : Option (TableId × AttrTable) := do
  let t ← σ.tableId? o
  return (t, ← σ.table? t)

def attrs? (σ : Store) (o : Object) : Option AttrTable :=
  (σ.held? o).map Prod.snd

/-- What a table says.  A table that is not there says nothing. -/
def attrsAt (σ : Store) (t : TableId) : AttrTable :=
  (σ.table? t).getD (.empty [] "entity")

def isEdgeStatement (σ : Store) : Object → Bool
  | .statement i =>
    match (σ.statement? i).map Statement.clause with
    | some (.edge _) => true
    | some (.noEdge _) => true
    | _ => false
  | _ => false

/-! ### Texts that messages show

A root graph shows its keyword, so one whose operator starts no graph has no text, nor has anything
that would show it. -/

def nameShown : Option Identifier → String
  | none => "None"
  | some name => Text.quoted name.text

def sizeShown (body : Body) : String :=
  toString body.members.length ++ " statements"

def rootShown? (σ : Store) (r : RootId) : Option String := do
  let g ← σ.root? r
  let keyword ← g.body.operator.keyword?
  return "RootGraph(" ++ nameShown g.body.name ++ ", " ++ keyword ++ ", " ++ sizeShown g.body ++ ")"

def subgraphShown (σ : Store) (s : SubgraphId) : String :=
  match σ.subgraph? s with
  | none => "Subgraph"
  | some g => "Subgraph(" ++ nameShown g.body.name ++ ", " ++ sizeShown g.body ++ ")"

def vertexShown (σ : Store) : Vertex → String
  | .node id => id.shown
  | .subgraph s => σ.subgraphShown s

def edgeShown (σ : Store) (e : Edge) : String :=
  "Edge(tail=" ++ σ.vertexShown e.tail ++ ", head=" ++ σ.vertexShown e.head ++ ", operator=" ++
    e.operator.token.shown ++ ")"

def shownWith? (σ : Store) (inner : StatementId → Option String) : Object → Option String
  | .root r => σ.rootShown? r
  | .subgraph s => some (σ.subgraphShown s)
  | .statement i => inner i
  | .edge e => some (σ.edgeShown e)

/-- The beginning of a statement's text, given the texts of the statements it mentions. -/
def clauseShown? (σ : Store) (inner : StatementId → Option String) : Clause → Option String
  | .node id => some ("NodeStatement(node_id=" ++ id.shown)
  | .edge e => some ("EdgeStatement(edge=" ++ σ.edgeShown e)
  | .defaults kind standalone =>
    standalone.shown?.map fun s =>
      "AttrDefaultStatement(kind=" ++ kind.token.shown ++ ", standalone=" ++ s
  | .noEdge (.datum d) => d.shown?.map ("EdgeStatement(edge=" ++ ·)
  | .noEdge (.object o) => (σ.shownWith? inner o).map ("EdgeStatement(edge=" ++ ·)

/-- The text of a statement that mentions no more than so many others in a row. -/
def statementShown? (σ : Store) : Nat → StatementId → Option String
  | 0, _ => none
  | depth + 1, i => do
    let s ← σ.statement? i
    return (← σ.clauseShown? (σ.statementShown? depth) s.clause) ++ ", attrs=" ++
      (σ.attrsAt s.table).shown ++ ")"

/-- A statement can only mention statements that were there before it. -/
def shown? (σ : Store) : Object → Option String :=
  σ.shownWith? fun i => σ.statementShown? (i.index + 1) i

/-- The word for the kind of an object. -/
def kindName (σ : Store) : Object → String
  | .root _ => "RootGraph"
  | .subgraph _ => "Subgraph"
  | .statement i =>
    match (σ.statement? i).map Statement.clause with
    | some (.node _) => "NodeStatement"
    | some (.edge _) => "EdgeStatement"
    | some (.noEdge _) => "EdgeStatement"
    | some (.defaults _ _) => "AttrDefaultStatement"
    | none => "Statement"
  | .edge _ => "Edge"

end Store

namespace Argument

/-- As a value, an object comes with the text that it shows now. -/
def toDatum (σ : Store) : Argument → Datum
  | datum d => d
  | object o => .object o (σ.shown? o)

def kindName (σ : Store) : Argument → String
  | datum d => d.kindName
  | object o => σ.kindName o

end Argument

end DotGraph
