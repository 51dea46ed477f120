import DotGraph.Network
import DotGraph.Store.Edit

/-!
The graph of a network: one node statement for each node and one edge statement for each edge, in
the order in which the network lists them, with those data that are declared attributes.
-/

namespace DotGraph

namespace Network

inductive ImportError where
  | build (e : BuildError)
  /-- The data of the network are not a record. -/
  | noRecord

abbrev Importing := ExceptT ImportError (StateM Store)

def building {α : Type} (step : Build α) : Importing α :=
  ExceptT.adapt .build step

def declared (schema : Schema) (data : NetData) : NetData :=
  data.filter fun entry => schema.has entry.1

def importNode (r : RootId) (k : Key) (data : NetData) : Build Unit := do
  let i ← Build.node (.root r) (.text k.name) .absent []
  Build.setAttrs (.statement i) (declared Schema.node data)

def importEdge (r : RootId) (e : NetEdge) : Build Unit := do
  let i ← Build.edge (.root r) (.datum (.text e.tail.name)) (.datum (.text e.head.name)) []
  Build.setAttrs (.statement i) (declared Schema.edge e.data)

/-- The name is looked at first, then the data of the network, its nodes and its edges. -/
def importing (n : Network) (name strict : Datum) : Importing RootId := do
  let operator : EdgeOperator := if n.directed then .directed else .undirected
  let r ← building (Build.newRoot name strict operator)
  match n.data with
  | none => throw .noRecord
  | some data =>
    building do
      Build.setAttrs (.root r) (declared Schema.rootGraph data)
      n.nodes.forM fun node => importNode r node.1 node.2
      n.edges.forM (importEdge r)
    return r

/-- The graph of a network, in a store of its own. -/
def toGraph (n : Network) (name strict : Datum) : Except ImportError (Store × RootId) :=
  match (n.importing name strict).run.run Store.empty with
  | (.ok r, σ) => .ok (σ, r)
  | (.error e, _) => .error e

end Network

end DotGraph
