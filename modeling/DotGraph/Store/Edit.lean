import DotGraph.Attribute.Edit
import DotGraph.Store.Links

/-!
The operations that build graphs.  Each looks first and writes afterwards; an operation that is
refused leaves what it has written, so that nothing but its own checks protects the store.
-/

namespace DotGraph

/-- Statements and edge ends that do not fit together. -/
inductive StructureError where
  | vertex (given : Datum)
  | vertexLike (given : Datum)
  | endOperator (subgraph edge : EdgeOperator)
  | notStatement (given : Datum)
  | notStandalone
  | owned (parent : Datum)
  | subgraphOperator (subgraph body : EdgeOperator)
  | edgeOperator (edge body : EdgeOperator)
  | selfContaining (subgraph : String)
  | portTwice (name : Identifier)
  | noEdge (given : Datum)

namespace StructureError

def message : StructureError → String
  | vertex given => "Edge endpoint must be a NodeId or Subgraph: " ++ given.shown
  | vertexLike given => "Edge endpoint must be a node name, NodeId or Subgraph: " ++ given.shown
  | endOperator s e =>
    "Subgraph uses " ++ Text.quoted s.text ++ " but edge uses " ++ Text.quoted e.text
  | notStatement given => "Not a statement: " ++ given.shown
  | notStandalone => "Only standalone attribute statements can be appended to a body"
  | owned parent => "Statement already belongs to " ++ parent.shown
  | subgraphOperator s b =>
    "Subgraph uses " ++ Text.quoted s.text ++ " but graph uses " ++ Text.quoted b.text
  | edgeOperator e b =>
    "Edge uses " ++ Text.quoted e.text ++ " but graph uses " ++ Text.quoted b.text
  | selfContaining s => "Subgraph " ++ s ++ " would contain itself"
  | portTwice name => "Port given twice for node " ++ Text.quoted name.text
  | noEdge given => "Not an edge: " ++ given.shown

/-- Whether all that the message shows has a text. -/
def isTold : StructureError → Bool
  | vertex given => given.isShown
  | vertexLike given => given.isShown
  | notStatement given => given.isShown
  | owned parent => parent.isShown
  | _ => true

end StructureError

inductive BuildError where
  | naming (e : NamingError)
  | attr (e : AttrError)
  | structural (e : StructureError)

namespace BuildError

def message : BuildError → String
  | naming e => e.message
  | attr e => e.message
  | structural e => e.message

def isTold : BuildError → Bool
  | naming e => e.isTold
  | attr e => e.isTold
  | structural e => e.isTold

end BuildError

/-- Defaults are appended only if they stand alone. -/
def Clause.checkStandalone : Clause → Except StructureError Unit
  | defaults _ standalone => if standalone.counts then .ok () else .error .notStandalone
  | _ => .ok ()

/-- A step of building: what it writes stays, also if it is refused. -/
abbrev Build := ExceptT BuildError (StateM Store)

namespace Store

/-! ### Writing -/

def modifyBody (σ : Store) (b : BodyRef) (f : Body → Body) : Store :=
  match b with
  | .root r =>
    { σ with roots := σ.roots.modify r.index fun g => { g with body := f g.body } }
  | .subgraph s =>
    { σ with subgraphs := σ.subgraphs.modify s.index fun g => { g with body := f g.body } }

def modifyStatement (σ : Store) (i : StatementId) (f : Statement → Statement) : Store :=
  { σ with statements := σ.statements.modify i.index f }

/-- Writes a table anew, for everything that holds it. -/
def setTable (σ : Store) (t : TableId) (table : AttrTable) : Store :=
  { σ with tables := σ.tables.setIfInBounds t.index table }

def setParent (σ : Store) (m : Member) (b : BodyRef) : Store :=
  match m with
  | .statement i => σ.modifyStatement i fun s => { s with parent := some b }
  | .subgraph s =>
    { σ with subgraphs := σ.subgraphs.modify s.index fun g => { g with parent := some b } }

/-- The statement gets its owner and its place behind the others. -/
def attach (σ : Store) (b : BodyRef) (m : Member) : Store :=
  (σ.setParent m b).modifyBody b fun body => { body with members := body.members ++ [m] }

/-! ### What may be appended -/

/-- A subgraph may be linked from a body of its operator that it does not itself write. -/
def checkLink (σ : Store) (b : BodyRef) (operator : EdgeOperator) (s : SubgraphId) :
    Except StructureError Unit :=
  match σ.subgraph? s with
  | none => .error (.notStatement ((Argument.object (.subgraph s)).toDatum σ))
  | some g =>
    if g.body.operator ≠ operator then .error (.subgraphOperator g.body.operator operator)
    else if σ.renders s b then .error (.selfContaining (σ.subgraphShown s))
    else .ok ()

def checkEnd (σ : Store) (b : BodyRef) (operator : EdgeOperator) :
    Vertex → Except StructureError Unit
  | .node _ => .ok ()
  | .subgraph s => σ.checkLink b operator s

def checkUnowned (σ : Store) (m : Member) : Except StructureError Unit :=
  match σ.parent? m with
  | some owner => .error (.owned ((Argument.object (.ofBody owner)).toDatum σ))
  | none => .ok ()

/-- The operator of an edge or body; nothing else has one. -/
def operator? (σ : Store) : Argument → Option EdgeOperator
  | .object (.edge e) => some e.operator
  | .object o => (o.body?.bind σ.body?).map Body.operator
  | .datum _ => none

/-- Where an edge is expected, its operator is looked at before its ends. -/
def checkClause (σ : Store) (b : BodyRef) (operator : EdgeOperator) :
    Clause → Except StructureError Unit
  | .edge e => do
    if e.operator ≠ operator then throw (.edgeOperator e.operator operator)
    σ.checkEnd b operator e.tail
    σ.checkEnd b operator e.head
  | .noEdge given => do
    if let some other := σ.operator? given then
      if other ≠ operator then throw (.edgeOperator other operator)
    throw (.noEdge (given.toDatum σ))
  | _ => .ok ()

def checkMember (σ : Store) (b : BodyRef) (m : Member) : Except StructureError Unit :=
  match σ.body? b, m with
  | some body, .subgraph s => do
    σ.checkUnowned m
    σ.checkLink b body.operator s
  | some body, .statement i =>
    match (σ.statement? i).map Statement.clause with
    | none => .error (.notStatement ((Argument.object (.statement i)).toDatum σ))
    | some clause => do
      clause.checkStandalone
      σ.checkUnowned m
      σ.checkClause b body.operator clause
  | none, _ => .error (.notStatement ((Argument.object (.ofBody b)).toDatum σ))

end Store

namespace Build

open Store

def liftNaming {α : Type} (x : Except NamingError α) : Build α :=
  match x with
  | .ok a => pure a
  | .error e => throw (.naming e)

def liftAttr {α : Type} (x : Except AttrError α) : Build α :=
  match x with
  | .ok a => pure a
  | .error e => throw (.attr e)

def liftStructure {α : Type} (x : Except StructureError α) : Build α :=
  match x with
  | .ok a => pure a
  | .error e => throw (.structural e)

/-! ### Making things, unattached -/

def newTable (table : AttrTable) : Build TableId := do
  let σ ← get
  set { σ with tables := σ.tables.push table }
  return ⟨σ.tables.size⟩

def newRoot (name strict : Datum) (operator : EdgeOperator) : Build RootId := do
  let name ← liftNaming (graphName name)
  let table ← newTable .ofRoot
  let σ ← get
  set { σ with roots := σ.roots.push ⟨⟨name, operator, table, []⟩, strict⟩ }
  return ⟨σ.roots.size⟩

def newSubgraph (name : Datum) (operator : EdgeOperator) : Build SubgraphId := do
  let name ← liftNaming (graphName name)
  let table ← newTable .ofSubgraph
  let σ ← get
  set { σ with subgraphs := σ.subgraphs.push ⟨⟨name, operator, table, []⟩, none⟩ }
  return ⟨σ.subgraphs.size⟩

def clauseAttrs : Clause → AttrTable
  | .node _ => .ofNode
  | .edge _ => .ofEdge
  | .noEdge _ => .ofEdge
  | .defaults kind _ => .ofDefaults kind

/-- A statement about a node or an edge can be given the table of something that is there, whatever
that is; defaults cannot. -/
def givenTable? (σ : Store) (given : Option Object) : Clause → Option TableId
  | .defaults _ _ => none
  | _ => (given.bind σ.held?).map Prod.fst

def tableFor (clause : Clause) (given : Option Object) : Build TableId := do
  match givenTable? (← get) given clause with
  | some t => return t
  | none => newTable (clauseAttrs clause)

def newStatement (clause : Clause) (given : Option Object) : Build StatementId := do
  let table ← tableFor clause given
  let σ ← get
  set { σ with statements := σ.statements.push ⟨clause, table, none⟩ }
  return ⟨σ.statements.size⟩

/-- An end of an edge, which has to fit the edge's operator if it is a subgraph. -/
def edgeEnd (operator : EdgeOperator) (given : Argument) : Build Vertex := do
  let σ ← get
  match given with
  | .datum (.nodeId id) => return .node id
  | .object (.subgraph s) =>
    match σ.subgraph? s with
    | some g =>
      if g.body.operator ≠ operator then
        throw (.structural (.endOperator g.body.operator operator))
      return .subgraph s
    | none => throw (.structural (.vertex (given.toDatum σ)))
  | given => throw (.structural (.vertex (given.toDatum σ)))

def newEdge (tail head : Argument) (operator : EdgeOperator) : Build Edge := do
  let tail ← edgeEnd operator tail
  let head ← edgeEnd operator head
  let σ ← get
  set { σ with edgeCount := σ.edgeCount + 1 }
  return ⟨σ.edgeCount, tail, head, operator⟩

/-! ### Operations on what is there -/

/-- Edits the table that a body or statement holds, and with it that of whatever else holds it. -/
def editTable (o : Object) (edit : TableEdit Unit) : Build Unit := do
  let σ ← get
  match σ.held? o with
  | none => return
  | some (t, table) =>
    let (result, table) := edit.run.run table
    set (σ.setTable t table)
    liftAttr result

/-- Sets attributes of a body or statement, all of them or none. -/
def setAttrs (o : Object) (attrs : Entries String Datum) : Build Unit :=
  editTable o (.enter (AttrTable.underNames attrs))

/-- Appends a statement to a body. -/
def attach (b : BodyRef) (m : Member) : Build Unit := do
  liftStructure ((← get).checkMember b m)
  modify fun σ => σ.attach b m

def add (b : BodyRef) (given : Argument) : Build Object := do
  match given with
  | .object o =>
    match o.member? with
    | some m =>
      attach b m
      return o
    | none => throw (.structural (.notStatement (given.toDatum (← get))))
  | .datum d => throw (.structural (.notStatement d))

/-- A statement with its attributes set, appended. -/
def append (b : BodyRef) (clause : Clause) (attrs : Entries String Datum) :
    Build StatementId := do
  let i ← newStatement clause none
  setAttrs (.statement i) attrs
  attach b (.statement i)
  return i

/-- A node id may be given whole, and then no port beside it. -/
def nodeIdOf (name port : Datum) : Build NodeId :=
  match name, port with
  | .nodeId id, .absent => pure id
  | .nodeId id, _ => throw (.structural (.portTwice id.name))
  | name, port => liftNaming (NodeId.ofDatum name port)

def node (b : BodyRef) (name port : Datum) (attrs : Entries String Datum) :
    Build StatementId := do
  append b (.node (← nodeIdOf name port)) attrs

/-- A text at the end of an edge names a node; node ids and subgraphs stand for themselves. -/
def vertexLike (given : Argument) : Build Argument := do
  match given with
  | .datum (.text s) => return .datum (.nodeId (← liftNaming (NodeId.ofDatum (.text s) .absent)))
  | .datum (.nodeId _) => return given
  | .object (.subgraph _) => return given
  | given => throw (.structural (.vertexLike (given.toDatum (← get))))

def operatorOf (b : BodyRef) : Build EdgeOperator := do
  return (((← get).body? b).map Body.operator).getD .undirected

def edge (b : BodyRef) (tail head : Argument) (attrs : Entries String Datum) :
    Build StatementId := do
  let tail ← vertexLike tail
  let head ← vertexLike head
  append b (.edge (← newEdge tail head (← operatorOf b))) attrs

def defaults (b : BodyRef) (kind : DefaultKind) (attrs : Entries String Datum) :
    Build StatementId :=
  append b (.defaults kind (.flag true)) attrs

/-- The first half of making a subgraph in a body: it exists, with the body's operator. -/
def openSubgraph (b : BodyRef) (name : Datum) : Build SubgraphId := do
  newSubgraph name (← operatorOf b)

/-- The second half: it is appended, unless it is to float, and noted down. -/
def closeSubgraph (b : BodyRef) (s : SubgraphId) (appended : Bool) : Build Unit := do
  if appended then attach b (.subgraph s)
  modify fun σ =>
    match σ.subgraph? s with
    | none => σ
    | some g =>
      { σ with creations := σ.creations ++ [⟨g.body.name, g.body.members.length, appended⟩] }

def subgraph (b : BodyRef) (name : Datum) (appended : Bool)
    (build : SubgraphId → Build Unit) : Build SubgraphId := do
  let s ← openSubgraph b name
  build s
  closeSubgraph b s appended
  return s

end Build

end DotGraph
