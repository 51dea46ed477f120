import DotGraph.NodeId
import DotGraph.Operator

/-!
Objects: what a caller can hold on to, without what is known about it.  Bodies, statements and
their attribute tables are known by their ids; an edge is known by its parts and a serial number.
-/

namespace DotGraph

structure RootId where
  index : Nat
  deriving DecidableEq

structure SubgraphId where
  index : Nat
  deriving DecidableEq

structure StatementId where
  index : Nat
  deriving DecidableEq

structure TableId where
  index : Nat
  deriving DecidableEq

/-- A body holds statements: a root graph or a subgraph. -/
inductive BodyRef where
  | root (r : RootId)
  | subgraph (s : SubgraphId)
  deriving DecidableEq

/-- An end of an edge. -/
inductive Vertex where
  | node (id : NodeId)
  | subgraph (s : SubgraphId)
  deriving DecidableEq

/-- Edges with the same ends are still told apart, by a serial number. -/
structure Edge where
  serial : Nat
  tail : Vertex
  head : Vertex
  operator : EdgeOperator
  deriving DecidableEq

namespace Edge

def kind (e : Edge) : EdgeKind :=
  match e.tail, e.head with
  | .node _, .node _ => .nodeNode
  | .node _, .subgraph _ => .nodeSubgraph
  | .subgraph _, .node _ => .subgraphNode
  | .subgraph _, .subgraph _ => .subgraphSubgraph

end Edge

/-- An entry in the statement list of a body; a subgraph is a statement too. -/
inductive Member where
  | statement (i : StatementId)
  | subgraph (s : SubgraphId)
  deriving DecidableEq

/-- Things in a store that a caller can hold on to. -/
inductive Object where
  | root (r : RootId)
  | subgraph (s : SubgraphId)
  | statement (i : StatementId)
  | edge (e : Edge)
  deriving DecidableEq

namespace Object

def ofBody : BodyRef → Object
  | .root r => .root r
  | .subgraph s => .subgraph s

def ofMember : Member → Object
  | .statement i => .statement i
  | .subgraph s => .subgraph s

def body? : Object → Option BodyRef
  | .root r => some (.root r)
  | .subgraph s => some (.subgraph s)
  | _ => none

def member? : Object → Option Member
  | .statement i => some (.statement i)
  | .subgraph s => some (.subgraph s)
  | _ => none

end Object

end DotGraph
