import DotGraph.Store.Edit

/-! The graphs that come with the library, each built by the same operations that callers have. -/

namespace DotGraph

inductive Example where
  | basic
  | commutative
  | clusters
  | subgraphEdge
  | numbered
  deriving DecidableEq

namespace Example

open Build

def all : List Example :=
  [basic, commutative, clusters, subgraphEdge, numbered]

def name : Example → String
  | basic => "basic"
  | commutative => "commutative"
  | clusters => "clusters"
  | subgraphEdge => "subgraph-edge"
  | numbered => "numbered"

def summary : Example → String
  | basic => "Node and edge attributes, defaults and an appended subgraph."
  | commutative => "A commutative diagram with two ranked rows."
  | clusters => "Two clustered processes joined by start and end nodes."
  | subgraphEdge => "A floating subgraph used only as an edge endpoint."
  | numbered => "A graph with \x60\x60count\x60\x60 bare numbered nodes."

def named? (name : String) : Option Example :=
  all.find? fun e => e.name == name

/-! ### Short forms -/

def texts (attrs : List (String × String)) : Entries String Datum :=
  attrs.map fun entry => (entry.1, .text entry.2)

def digraph (name : Datum) : Build RootId :=
  newRoot name (.flag false) .directed

def nodeNamed (b : BodyRef) (name : String) (attrs : List (String × String)) : Build Unit := do
  let _ ← Build.node b (.text name) .absent (texts attrs)

def edgeFrom (b : BodyRef) (tail head : String) (attrs : List (String × String)) : Build Unit := do
  let _ ← Build.edge b (.datum (.text tail)) (.datum (.text head)) (texts attrs)

def nodeDefaults (b : BodyRef) (attrs : List (String × String)) : Build Unit := do
  let _ ← Build.defaults b .node (texts attrs)

/-! ### The graphs -/

def buildBasic : Build RootId := do
  let g ← digraph .absent
  nodeDefaults (.root g) [("color", "green"), ("shape", "box3d")]
  nodeNamed (.root g) "a" [("color", "blue")]
  edgeFrom (.root g) "a" "b" [("color", "orange")]
  edgeFrom (.root g) "a" "c" [("color", "black"), ("style", "dashed")]
  let _ ← Build.subgraph (.root g) .absent true fun s => do
    nodeDefaults (.subgraph s) [("color", "yellow")]
    edgeFrom (.subgraph s) "e" "f" []
  return g

def row (g : RootId) (names : List String) : Build Unit := do
  let s ← Build.subgraph (.root g) .absent true fun _ => pure ()
  setAttrs (.subgraph s) (texts [("rank", "same")])
  names.forM fun name => nodeNamed (.subgraph s) name []

def buildCommutative : Build RootId := do
  let g ← digraph (.text "g")
  nodeDefaults (.root g) [("shape", "plaintext")]
  edgeFrom (.root g) "A1" "B1" []
  edgeFrom (.root g) "A2" "B2" []
  edgeFrom (.root g) "A3" "B3" []
  edgeFrom (.root g) "A1" "A2" [("label", "f")]
  edgeFrom (.root g) "A2" "A3" [("label", "g")]
  edgeFrom (.root g) "B2" "B3" [("label", "g\x27")]
  edgeFrom (.root g) "B1" "B3" [("label", "(g o f)\x27"), ("tailport", "s"), ("headport", "s")]
  row g ["A1", "A2", "A3"]
  row g ["B1", "B2", "B3"]
  return g

def buildClusters : Build RootId := do
  let g ← digraph (.text "G")
  let _ ← Build.subgraph (.root g) (.text "cluster_0") true fun s => do
    setAttrs (.subgraph s)
      (texts [("style", "filled"), ("color", "lightgrey"), ("label", "process #1")])
    nodeDefaults (.subgraph s) [("style", "filled"), ("color", "white")]
    edgeFrom (.subgraph s) "a0" "a1" []
    edgeFrom (.subgraph s) "a1" "a2" []
    edgeFrom (.subgraph s) "a2" "a3" []
  let _ ← Build.subgraph (.root g) (.text "cluster_1") true fun s => do
    setAttrs (.subgraph s) (texts [("color", "blue"), ("label", "process #2")])
    nodeDefaults (.subgraph s) [("style", "filled")]
    edgeFrom (.subgraph s) "b0" "b1" []
    edgeFrom (.subgraph s) "b1" "b2" []
    edgeFrom (.subgraph s) "b2" "b3" []
  [("start", "a0"), ("start", "b0"), ("a1", "b3"), ("b2", "a3"), ("a3", "a0"), ("a3", "end"),
    ("b3", "end")].forM fun ends => edgeFrom (.root g) ends.1 ends.2 []
  nodeNamed (.root g) "start" [("shape", "Mdiamond")]
  nodeNamed (.root g) "end" [("shape", "Msquare")]
  return g

def buildSubgraphEdge : Build RootId := do
  let g ← digraph .absent
  let s ← Build.subgraph (.root g) .absent false fun s => do
    nodeDefaults (.subgraph s) [("color", "blue")]
    nodeNamed (.subgraph s) "x" []
    nodeNamed (.subgraph s) "y" []
  let _ ← Build.edge (.root g) (.object (.subgraph s)) (.datum (.text "a")) []
  return g

def buildNumbered (count : Nat) : Build RootId := do
  let g ← digraph .absent
  (List.range count).forM fun i => nodeNamed (.root g) (toString i) []
  return g

/-- How many nodes there are unless another count is asked for. -/
def defaultCount : Nat := 101

/-- Whether a count can be asked for. -/
def isCounted (e : Example) : Bool :=
  e = numbered

/-- The count is for the numbered nodes. -/
def build (count : Nat) : Example → Build RootId
  | basic => buildBasic
  | commutative => buildCommutative
  | clusters => buildClusters
  | subgraphEdge => buildSubgraphEdge
  | numbered => buildNumbered count

/-- The example in a store of its own. -/
def graph (e : Example) (count : Nat) : Except BuildError (Store × RootId) :=
  match (e.build count).run.run Store.empty with
  | (.ok r, σ) => .ok (σ, r)
  | (.error err, _) => .error err

end Example

end DotGraph
