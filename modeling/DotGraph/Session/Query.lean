import DotGraph.Dot
import DotGraph.Json.Graph
import DotGraph.Json.Printer
import DotGraph.Network.Export
import DotGraph.Network.Import
import DotGraph.Session.Edit

/-! Queries under names: whatever reads the store, from one attribute to the text of a graph. -/

namespace DotGraph

namespace Query

/-- A level of indentation. -/
def levelOf (given : Datum) : Except ScriptError Int :=
  match given.whole? with
  | some level => .ok level
  | none => .error .unsuitable

def liftProduct {α : Type} : Except ProductError α → Except ScriptError α
  | .ok a => .ok a
  | .error e => .error (.product e)

/-- The layout of a JSON text: a number of spaces, a unit, or all on one line. -/
def layoutOf : Datum → Except ScriptError Json.Layout
  | .absent => .ok .line
  | .text unit => .ok (.broken unit)
  | given => do return .broken (← liftProduct ((Datum.text " ").product given)).name

def unfolded {α : Type} : Option α → Except ScriptError α
  | some a => .ok a
  | none => .error .endless

def viewOf (g : RootOutline) : Except ScriptError Json :=
  match g.toJson? with
  | some view => .ok view
  | none => .error .unsuitable

def rootOf (given : Argument) : Except ScriptError RootId := do
  match ← given.asObject with
  | .root r => return r
  | _ => throw .unsupported

def subgraphOf (names : Names) (on : String) : Except ScriptError SubgraphId := do
  match ← names.object? on with
  | .subgraph s => return s
  | _ => throw .unsupported

def attrsOf (σ : Store) (o : Object) : Except ScriptError AttrTable :=
  match σ.attrs? o with
  | some attrs => .ok attrs
  | none => .error .unsupported

def ownerAnswer (names : Names) : Option BodyRef → Answer
  | none => .nothing
  | some b => .owner (names.nameOf? (.ofBody b)) b

def kindText (σ : Store) : Object → Except ScriptError String
  | .edge e => .ok e.kind.text
  | .statement i =>
    match (σ.statement? i).map Statement.clause with
    | some (.defaults k _) => .ok k.text
    | _ => .error .unsupported
  | _ => .error .unsupported

/-- How a part is to be written: the level is looked at only where it is needed. -/
structure Style where
  config : RenderConfig
  level : Except ScriptError Int
  inline : Bool

def checkNeed (style : Style) : Dot.Need → Except ScriptError Unit
  | .indentation level => do
    let _ ← liftProduct (Text.copies style.config.indent level)
  | .operator o => if Dot.isWritable o.token then .ok () else .error .unsupported

def checkNeeds (style : Style) (needs : List Dot.Need) : Except ScriptError Unit :=
  needs.forM (checkNeed style)

def writeItem (σ : Store) (style : Style) (m : Member) : Except ScriptError String := do
  let level ← style.level
  let item ← unfolded (σ.item? m)
  checkNeeds style (Dot.itemNeeds level item)
  return Dot.item style.config level item

/-- A statement that misses its edge is indented before that is found. -/
def refuseIncomplete (style : Style) : Except ScriptError String := do
  checkNeed style (.indentation (← style.level))
  throw .unsupported

def writeStatement (σ : Store) (style : Style) (i : StatementId) : Except ScriptError String :=
  match (σ.statement? i).map Statement.clause with
  | some (.noEdge _) => refuseIncomplete style
  | _ => writeItem σ style (.statement i)

def writeBody (σ : Store) (style : Style) (inline : Bool) (b : BodyRef) :
    Except ScriptError String := do
  let level ← style.level
  let o ← unfolded (σ.outline? b)
  if !inline then checkNeed style (.indentation level)
  checkNeeds style (Dot.subgraphNeeds level o)
  return Dot.subgraph style.config level inline o

/-- The level of an end of an edge; a node has none. -/
def endLevel (style : Style) : Vertex → Except ScriptError Int
  | .node _ => .ok 0
  | .subgraph _ => style.level

/-- An end of an edge, once all is there that its text needs. -/
def endOf (σ : Store) (style : Style) (v : Vertex) : Except ScriptError Endpoint := do
  let level ← endLevel style v
  let o ← unfolded (σ.endpoint? v)
  checkNeeds style (Dot.endpointNeeds level o)
  return o

/-- An edge between two nodes is written alike at every level, also where no level is given. -/
def writeEdge (σ : Store) (style : Style) (e : Edge) : Except ScriptError String := do
  let tail ← endOf σ style e.tail
  checkNeed style (.operator e.operator)
  let head ← endOf σ style e.head
  return Dot.edge style.config (style.level.toOption.getD 0) tail head e.operator

/-- Without a word to start with there is no text, whatever is in the graph. -/
def writeRoot (σ : Store) (c : RenderConfig) (r : RootId) : Except ScriptError String :=
  match σ.keyword? r with
  | none => .error .unsupported
  | some _ => unfolded (σ.dot? r c)

def writeObject (σ : Store) (style : Style) (part : WrittenPart) (o : Object) :
    Except ScriptError String :=
  match part, o with
  | .statement, .subgraph s => writeItem σ style (.subgraph s)
  | .statement, .statement i => writeStatement σ style i
  | .statement, o => .error (.notAStatement (σ.kindName o))
  | .subgraph, .root r => writeBody σ style style.inline (.root r)
  | .subgraph, .subgraph s => writeBody σ style style.inline (.subgraph s)
  | .vertex, .root r => writeBody σ style true (.root r)
  | .vertex, .subgraph s => writeBody σ style true (.subgraph s)
  | .edge, .edge e => writeEdge σ style e
  | .graph, .root r => writeRoot σ style.config r
  | .defaults, .statement i =>
    match σ.statement? i with
    | some ⟨.defaults k standalone, table, _⟩ =>
      .ok (Dot.defaults style.config k standalone.counts (σ.attrsAt table))
    | _ => .error .unsupported
  | .attrList, o => do return Dot.attrList style.config (← attrsOf σ o)
  | _, _ => .error .unsupported

/-- A value that has a name starts like a subgraph, behind the indentation of its level. -/
def refuseNamed (style : Style) : Except ScriptError String := do
  if style.inline then throw .unsupported
  refuseIncomplete style

def writeDatum (style : Style) (part : WrittenPart) (d : Datum) : Except ScriptError String :=
  match part, d with
  | .statement, d => .error (.notAStatement d.kindName)
  | .vertex, .nodeId id => .ok (Dot.nodeId style.config id)
  | .nodeId, .nodeId id => .ok (Dot.nodeId style.config id)
  | .nodeId, .token t => .error (if Dot.isWritable t then .unsuitable else .unsupported)
  | .subgraph, .nodeId _ => refuseNamed style
  | .subgraph, .token _ => refuseNamed style
  | _, _ => .error .unsupported

def writeArgument (σ : Store) (style : Style) (part : WrittenPart) :
    Argument → Except ScriptError String
  | .object o => writeObject σ style part o
  | .datum d => writeDatum style part d

def importError : Network.ImportError → ScriptError
  | .build e => .build e
  | .noRecord => .unsupported

/-- The text of the graph that a network is read back as. -/
def readBack (n : Network) (name strict : Datum) : Except ScriptError String :=
  match n.toGraph name strict with
  | .error e => .error (importError e)
  | .ok (σ, r) => unfolded (σ.dot? r .default)

def run (σ : Store) (names : Names) : Query → Except ScriptError Answer
  | get on key => do
    let attrs ← attrsOf σ (← names.object? on)
    match attrs.lookup? (← key.evalDatum σ names) with
    | .ok found => return .value ((found.map AttrValue.toDatum).getD .absent)
    | .error e => throw (.build (.attr e))
  | parent on => do
    match (← names.object? on).member? with
    | some m => return ownerAnswer names (σ.parent? m)
    | none => throw .unsupported
  | statements on => do return .members (σ.members (← names.body? on))
  | renders on body => do
    let s ← subgraphOf names on
    match ← body.eval σ names with
    | .object o => return .flag (o.body?.any (σ.renders s))
    | .datum _ => return .flag false
  | directed on => do
    let b ← names.body? on
    return .flag (((σ.body? b).map Body.operator).any (· == .directed))
  | kind on => do return .text (← kindText σ (← names.object? on))
  | same a b => do return .flag ((← a.evalDatum σ names).same (← b.evalDatum σ names))
  | shown value => do
    match (← value.evalDatum σ names).shown? with
    | some s => return .text s
    | none => throw .unsupported
  | dot on config => do
    let r ← rootOf (← names.given? on)
    let c ← ConfigExpr.eval σ names config
    return .text (← writeRoot σ c r)
  | json on indent => do
    let target ← names.given? on
    let indent ← indent.evalDatum σ names
    let r ← rootOf target
    let g ← unfolded (σ.rootOutline? r)
    let layout ← layoutOf indent
    return .text ((← viewOf g).toText layout)
  | network on => do return .network (← unfolded (σ.network? (← names.body? on)))
  | roundTrip on name strict => do
    let n ← unfolded (σ.network? (← names.body? on))
    let name ← name.evalDatum σ names
    let strict ← strict.evalDatum σ names
    return .text (← readBack n name strict)
  | write part value level inline config => do
    let c ← ConfigExpr.eval σ names config
    let given ← value.eval σ names
    let level ← level.evalDatum σ names
    let inline ← inline.evalDatum σ names
    return .text (← writeArgument σ ⟨c, levelOf level, inline.counts⟩ part given)

end Query

end DotGraph
