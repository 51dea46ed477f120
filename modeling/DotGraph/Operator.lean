import DotGraph.Vocabulary

/-! The kinds of graph, of default statement and of edge. -/

namespace DotGraph

/-- The edge operator of a root graph, shared by all that is written below it. -/
inductive EdgeOperator where
  | directed
  | undirected
  /-- A word of another vocabulary in the place of an operator: no graph starts with it. -/
  | foreign (word : Token)
  deriving DecidableEq

namespace EdgeOperator

def vocabulary : Vocabulary where
  name := "EdgeOperator"
  words := [("DIRECTED", "->"), ("UNDIRECTED", "--")]
  distinct := by decide

def text : EdgeOperator → String
  | directed => "->"
  | undirected => "--"
  | foreign word => word.value

/-- The word with which the text of a graph starts. -/
def keyword? : EdgeOperator → Option String
  | directed => some "digraph"
  | undirected => some "graph"
  | foreign _ => none

def token : EdgeOperator → Token
  | directed => ⟨"EdgeOperator", "DIRECTED", "->"⟩
  | undirected => ⟨"EdgeOperator", "UNDIRECTED", "--"⟩
  | foreign word => word

def ofToken (t : Token) : EdgeOperator :=
  if t = directed.token then directed
  else if t = undirected.token then undirected
  else foreign t

@[simp] theorem ofToken_directed : ofToken directed.token = directed := rfl

@[simp] theorem ofToken_undirected : ofToken undirected.token = undirected := by
  decide

@[simp] theorem token_ofToken (t : Token) : (ofToken t).token = t := by
  unfold ofToken
  split
  · simp_all
  · split <;> simp_all [token]

end EdgeOperator

/-- What a default statement sets attributes for. -/
inductive DefaultKind where
  | graph
  | node
  | edge
  deriving DecidableEq

namespace DefaultKind

def vocabulary : Vocabulary where
  name := "DefaultKind"
  words := [("GRAPH", "graph"), ("NODE", "node"), ("EDGE", "edge")]
  distinct := by decide

def text : DefaultKind → String
  | graph => "graph"
  | node => "node"
  | edge => "edge"

def token : DefaultKind → Token
  | graph => ⟨"DefaultKind", "GRAPH", "graph"⟩
  | node => ⟨"DefaultKind", "NODE", "node"⟩
  | edge => ⟨"DefaultKind", "EDGE", "edge"⟩

def ofToken? (t : Token) : Option DefaultKind :=
  [graph, node, edge].find? fun k => k.token == t

@[simp] theorem ofToken?_token (k : DefaultKind) : ofToken? k.token = some k := by
  cases k <;> decide

end DefaultKind

/-- Which ends of an edge are nodes and which are subgraphs, tail first. -/
inductive EdgeKind where
  | nodeNode
  | nodeSubgraph
  | subgraphNode
  | subgraphSubgraph
  deriving DecidableEq

namespace EdgeKind

def vocabulary : Vocabulary where
  name := "EdgeKind"
  words := [("NODE_NODE", "node-node"), ("NODE_SUBGRAPH", "node-subgraph"),
    ("SUBGRAPH_NODE", "subgraph-node"), ("SUBGRAPH_SUBGRAPH", "subgraph-subgraph")]
  distinct := by decide

def text : EdgeKind → String
  | nodeNode => "node-node"
  | nodeSubgraph => "node-subgraph"
  | subgraphNode => "subgraph-node"
  | subgraphSubgraph => "subgraph-subgraph"

end EdgeKind

end DotGraph
