import DotGraph.Store

/-!
Outlines: a body with everything that is written for it, as a finite tree.  A subgraph that is
reached along several links stands in the tree once for each of them.
-/

namespace DotGraph

/-- What a body says about itself, and which body it is. -/
structure Header where
  source : BodyRef
  name : Option Identifier
  operator : EdgeOperator
  attrs : AttrTable

mutual

inductive Item where
  | node (id : NodeId) (attrs : AttrTable)
  | edge (tail head : Endpoint) (operator : EdgeOperator) (attrs : AttrTable)
  | defaults (kind : DefaultKind) (standalone : Bool) (attrs : AttrTable)
  | subgraph (inner : Outline)

inductive Endpoint where
  | node (id : NodeId)
  | subgraph (inner : Outline)

inductive Outline where
  | mk (header : Header) (items : List Item)

end

namespace Outline

def header : Outline → Header
  | mk header _ => header

def items : Outline → List Item
  | mk _ items => items

end Outline

namespace Endpoint

def isNode : Endpoint → Bool
  | node _ => true
  | subgraph _ => false

end Endpoint

namespace EdgeKind

def ofEnds (tail head : Endpoint) : EdgeKind :=
  match tail.isNode, head.isNode with
  | true, true => nodeNode
  | true, false => nodeSubgraph
  | false, true => subgraphNode
  | false, false => subgraphSubgraph

end EdgeKind

/-- The outline of a root graph. -/
structure RootOutline where
  body : Outline
  strict : Datum

namespace Store

variable (σ : Store) (inner : SubgraphId → Option Outline)

def headerOf (b : BodyRef) (body : Body) : Header :=
  ⟨b, body.name, body.operator, σ.attrsAt body.table⟩

/-! ### One level, given the outlines of subgraphs -/

def endpointWith? : Vertex → Option Endpoint
  | .node id => some (.node id)
  | .subgraph s => (inner s).map .subgraph

/-- Where an edge is missing, there is nothing to write. -/
def clauseWith? (attrs : AttrTable) : Clause → Option Item
  | .node id => some (.node id attrs)
  | .edge e => do
    let tail ← endpointWith? inner e.tail
    let head ← endpointWith? inner e.head
    return .edge tail head e.operator attrs
  | .defaults kind standalone => some (.defaults kind standalone.counts attrs)
  | .noEdge _ => none

def itemWith? : Member → Option Item
  | .statement i => do
    let s ← σ.statement? i
    clauseWith? inner (σ.attrsAt s.table) s.clause
  | .subgraph s => (inner s).map .subgraph

def bodyWith? (b : BodyRef) : Option Outline := do
  let body ← σ.body? b
  let items ← body.members.mapM (σ.itemWith? inner)
  return ⟨σ.headerOf b body, items⟩

/-! ### All levels -/

/-- The outline of a body that has no more than so many bodies below one another. -/
def outlineTo? (σ : Store) : Nat → BodyRef → Option Outline
  | 0, _ => none
  | depth + 1, b => σ.bodyWith? (fun s => outlineTo? σ depth (.subgraph s)) b

/-- Along links that never lead back, a body has at most every subgraph below it. -/
def depthBound (σ : Store) : Nat :=
  σ.subgraphs.size + 1

/-- The outline of a body, unless links lead back to where they started. -/
def outline? (σ : Store) (b : BodyRef) : Option Outline :=
  σ.outlineTo? σ.depthBound b

def rootOutline? (σ : Store) (r : RootId) : Option RootOutline := do
  let g ← σ.root? r
  return ⟨← σ.outline? (.root r), g.strict⟩

def item? (σ : Store) (m : Member) : Option Item :=
  σ.itemWith? (fun s => σ.outline? (.subgraph s)) m

def endpoint? (σ : Store) (v : Vertex) : Option Endpoint :=
  endpointWith? (fun s => σ.outline? (.subgraph s)) v

end Store

end DotGraph
