import DotGraph.Network
import DotGraph.Outline

/-!
The network of a graph.  Node statements and the ends of edges become nodes; an edge with a
subgraph at an end leads to every node that the subgraph mentions.
-/

namespace DotGraph

namespace AttrTable

/-- The attributes as data; tokens give way to their texts. -/
def netData (t : AttrTable) : NetData :=
  t.plain.map fun entry => (entry.1, entry.2.toDatum)

end AttrTable

/-- The names that are not there yet, behind those that are. -/
def addNew (names : List Identifier) : List Identifier → List Identifier
  | [] => names
  | name :: rest => addNew (if name ∈ names then names else names ++ [name]) rest

mutual

/-- The nodes that an end of an edge mentions, each once, in the order of first mention. -/
def Endpoint.names : Endpoint → List Identifier
  | .node id => [id.name]
  | .subgraph inner => inner.names

def Outline.names : Outline → List Identifier
  | ⟨_, items⟩ => namesAfter [] items

/-- Statements of a subgraph in order; defaults mention nothing. -/
def Item.names : Item → List Identifier
  | .node id _ => [id.name]
  | .edge tail head _ _ => tail.names ++ head.names
  | .defaults _ _ _ => []
  | .subgraph inner => inner.names

def namesAfter (names : List Identifier) : List Item → List Identifier
  | [] => names
  | item :: rest => namesAfter (addNew names item.names) rest

end

def Identifier.key (name : Identifier) : Key :=
  .text name.text

namespace Network

/-- An edge from every tail to every head. -/
def connect (n : Network) (tails heads : List Identifier) (data : NetData) : Network :=
  tails.foldl (fun n tail =>
    heads.foldl (fun n head => n.addEdge tail.key head.key none data) n) n

mutual

def addItem (n : Network) : Item → Network
  | .node id attrs => n.addNode id.name.key attrs.netData
  | .edge tail head _ attrs => n.connect tail.names head.names attrs.netData
  | .defaults _ _ _ => n
  | .subgraph inner => n.addInner inner

def addInner (n : Network) : Outline → Network
  | ⟨_, items⟩ => n.addItems items

def addItems (n : Network) : List Item → Network
  | [] => n
  | item :: rest => (n.addItem item).addItems rest

end

end Network

def Outline.network (o : Outline) : Network :=
  { Network.empty (o.header.operator == EdgeOperator.directed) false with
    data := some o.header.attrs.netData }.addItems o.items

namespace Store

/-- The network of a body of the store. -/
def network? (σ : Store) (b : BodyRef) : Option Network :=
  (σ.outline? b).map Outline.network

end Store

end DotGraph
