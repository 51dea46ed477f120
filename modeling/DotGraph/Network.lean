import DotGraph.Datum.Equality
import DotGraph.Entries
import DotGraph.Network.Key

/-!
Networks: nodes and edges that carry data, with no statements and no nesting.  Nodes are kept in
the order of their first mention.  Two nodes are linked at most once, and a link holds the strands
that run between them: one in a plain network, any number in one with parallel edges.
-/

namespace DotGraph

/-- The data of a node, of an edge or of the whole network. -/
abbrev NetData := Entries String Datum

instance : DecidableEq NetData := inferInstance

structure Link where
  tail : Key
  head : Key
  strands : Entries Key NetData
  deriving DecidableEq

structure NetEdge where
  tail : Key
  head : Key
  data : NetData
  deriving DecidableEq

structure Network where
  directed : Bool
  parallel : Bool
  /-- None if what was given as the data of the network is not a record. -/
  data : Option NetData
  nodes : Entries Key NetData
  links : List Link
  deriving DecidableEq

namespace Link

/-- Whether the link runs between two nodes, in either direction if there are none. -/
def joins (l : Link) (directed : Bool) (u v : Key) : Bool :=
  (l.tail == u && l.head == v) || (!directed && l.tail == v && l.head == u)

/-- Where the link leads from a node, if it starts there. -/
def other? (l : Link) (directed : Bool) (u : Key) : Option Key :=
  if l.tail == u then some l.head
  else if !directed && l.head == u then some l.tail
  else none

end Link

namespace Network

def empty (directed parallel : Bool) : Network :=
  ⟨directed, parallel, some [], [], []⟩

/-! ### Adding -/

/-- Data for a key, behind and over the data that are there. -/
def enter (k : Key) (data : NetData) (entries : Entries Key NetData) : Entries Key NetData :=
  entries.put k (((entries.get? k).getD []).merge data)

def addNode (n : Network) (k : Key) (data : NetData) : Network :=
  { n with nodes := enter k data n.nodes }

/-- The least number from the count of strands on that names none of them: there is one among one
number more than there are strands. -/
def freshStrand (strands : Entries Key NetData) : Key :=
  let count := strands.length
  let numbers := List.range' count (count + 1)
  .integer ((numbers.find? fun i => !strands.has (.integer i)).getD count : Nat)

/-- The strand that an edge belongs to.  Without parallel edges there is only one. -/
def strandFor (n : Network) (strand : Option Key) (strands : Entries Key NetData) : Key :=
  if n.parallel then strand.getD (freshStrand strands) else .integer 0

def addStrand (n : Network) (strand : Option Key) (data : NetData) (strands : Entries Key NetData) :
    Entries Key NetData :=
  enter (n.strandFor strand strands) data strands

def joinLinks (n : Network) (u v : Key) (strand : Option Key) (data : NetData) :
    List Link → List Link
  | [] => [⟨u, v, n.addStrand strand data []⟩]
  | l :: rest =>
    if l.joins n.directed u v then { l with strands := n.addStrand strand data l.strands } :: rest
    else l :: joinLinks n u v strand data rest

/-- Nodes that an edge mentions first are added, its tail before its head. -/
def addEdge (n : Network) (u v : Key) (strand : Option Key) (data : NetData) : Network :=
  let n := (n.addNode u []).addNode v []
  { n with links := n.joinLinks u v strand data n.links }

/-! ### Listing -/

/-- The edges listed at a node, but for those to nodes that have had their turn. -/
def edgesAt (n : Network) (done : List Key) (u : Key) : List NetEdge :=
  n.links.flatMap fun l =>
    match l.other? n.directed u with
    | none => []
    | some v =>
      if !n.directed && done.any (· == v) then []
      else l.strands.map fun strand => ⟨u, v, strand.2⟩

def edgesFrom (n : Network) (done : List Key) : List Key → List NetEdge
  | [] => []
  | u :: rest => n.edgesAt done u ++ n.edgesFrom (u :: done) rest

/-- Every edge once: by node, then in the order in which the node's links were made. -/
def edges (n : Network) : List NetEdge :=
  n.edgesFrom [] n.nodes.keys

@[simp] theorem edges_empty (directed parallel : Bool) : (empty directed parallel).edges = [] := rfl

/-! ### Building from given values -/

/-- Why a value cannot be a node. -/
inductive KeyError where
  | null
  | notAKey (given : Datum)

def KeyError.message : KeyError → String
  | .null => "None cannot be a node"
  | .notAKey given => "unhashable type: " ++ Text.quoted given.kindName

def nodeKey (mark : Nat) : Datum → Except KeyError Key
  | .absent => .error .null
  | given =>
    match Key.ofDatum? mark given with
    | some k => .ok k
    | none => .error (.notAKey given)

/-- What a record says under keys that are texts; no other key can be declared. -/
def namedData : List (Datum × Datum) → NetData
  | [] => []
  | (.text name, value) :: rest => (name, value) :: namedData rest
  | _ :: rest => namedData rest

/-- One step of building a network. -/
inductive Addition where
  | node (id : Datum) (data : NetData)
  | edge (tail head : Datum) (data : NetData)

/-- Undefined numbers given in different places are different nodes. -/
def add (n : Network) (position : Nat) : Addition → Except KeyError Network
  | .node id data => do
    return n.addNode (← nodeKey (2 * position) id) data
  | .edge tail head data => do
    let u ← nodeKey (2 * position) tail
    let v ← nodeKey (2 * position + 1) head
    return n.addEdge u v none data

def addAll (n : Network) (position : Nat) : List Addition → Except KeyError Network
  | [] => .ok n
  | step :: rest => do addAll (← n.add position step) (position + 1) rest

def ofAdditions (directed parallel : Bool) (data : NetData) (steps : List Addition) :
    Except KeyError Network :=
  addAll { empty directed parallel with data := some data } 0 steps

end Network

end DotGraph
