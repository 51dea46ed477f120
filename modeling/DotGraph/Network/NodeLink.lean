import DotGraph.Json.Datum
import DotGraph.Network

/-!
Networks out of the node-link notation: an object with a list of nodes, each with an id and data,
and a list of links, each with a source, a target and data.  The data are handed on by name, so none
can have a name of what they are handed on to.
-/

namespace DotGraph

namespace Network

inductive NodeLinkError where
  | notAnObject
  | missing (member : String)
  | notAList (member : String)
  | key (e : KeyError)
  /-- A member of this name is given a second time. -/
  | nameTaken (name : String)
  /-- A text holds half of a surrogate pair; what becomes of such a text is left open here. -/
  | torn

namespace NodeLinkError

def message : NodeLinkError → String
  | notAnObject => "an object is expected"
  | missing member => "no member " ++ Text.quoted member
  | notAList member => "the member " ++ Text.quoted member ++ " is not a list"
  | key e => e.message
  | nameTaken name => "got multiple values for argument " ++ Text.quoted name
  | torn => "surrogates not allowed"

end NodeLinkError

namespace NodeLink

open Json

def members : Json → Except NodeLinkError (List (String × Json))
  | object members => .ok members
  | _ => .error .notAnObject

def required (name : String) (members : List (String × Json)) : Except NodeLinkError Json :=
  match Entries.get? name members with
  | some value => .ok value
  | none => .error (.missing name)

/-- The entries of a list; an empty text and an empty object are empty lists too. -/
def entriesOf (name : String) : Json → Except NodeLinkError (List Json)
  | array items => .ok items
  | object [] => .ok []
  | object _ => .error .notAnObject
  | text s => if s = "" then .ok [] else .error .notAnObject
  | _ => .error (.notAList name)

/-- All undefined numbers of one text are the same node. -/
def keyOf (d : Datum) : Except NodeLinkError Key :=
  match nodeKey 0 d with
  | .ok k => .ok k
  | .error e => .error (.key e)

def orTorn {α : Type} : Option α → Except NodeLinkError α
  | some a => .ok a
  | none => .error .torn

mutual

/-- An id, in which lists become tuples at every depth. -/
def idDatum? : Json → Option Datum
  | array items => (idData? items).map .tuple
  | value => value.toDatum?

def idData? : List Json → Option (List Datum)
  | [] => some []
  | item :: rest => do
    let d ← idDatum? item
    return d :: (← idData? rest)

end

/-- An end of a link, in which only the outermost list becomes a tuple. -/
def endDatum? : Json → Option Datum
  | array items => (itemsToData? items).map .tuple
  | value => value.toDatum?

def dataWithout (names : List String) (members : List (String × Json)) :
    Except NodeLinkError NetData :=
  (members.filter fun member => !names.contains member.1).mapM fun member => do
    return (member.1, ← orTorn member.2.toDatum?)

/-- Data that are handed on by name. -/
def checkNames (taken : List String) (data : NetData) : Except NodeLinkError Unit :=
  match data.find? fun entry => taken.contains entry.1 with
  | some entry => .error (.nameTaken entry.1)
  | none => .ok ()

def nodeNames : List String :=
  ["self", "node_for_adding"]

def linkNames (parallel : Bool) : List String :=
  if parallel then ["self", "u_for_edge", "v_for_edge"] else ["self", "u_of_edge", "v_of_edge"]

/-- A node without an id is known by its position. -/
def readNode (n : Network) (position : Nat) (node : Json) : Except NodeLinkError Network := do
  let fields ← members node
  let id ← orTorn (((Entries.get? "id" fields).map idDatum?).getD (some (.integer position)))
  let data ← dataWithout ["id"] fields
  checkNames nodeNames data
  return n.addNode (← keyOf id) data

def readNodes (n : Network) (position : Nat) : List Json → Except NodeLinkError Network
  | [] => .ok n
  | node :: rest => do readNodes (← readNode n position node) (position + 1) rest

/-- Only where edges may be parallel has a link a key; null stands for none. -/
def strandOf (fields : List (String × Json)) : Except NodeLinkError (Option Key) :=
  match Entries.get? "key" fields with
  | none => .ok none
  | some null => .ok none
  | some value => do return some (← keyOf (← orTorn value.toDatum?))

/-- What a link says besides, and the names under which it says nothing of its own. -/
def fieldNames (parallel : Bool) : List String :=
  if parallel then ["source", "target", "key"] else ["source", "target"]

def readLink (n : Network) (link : Json) : Except NodeLinkError Network := do
  let fields ← members link
  let source ← orTorn (endDatum? (← required "source" fields))
  let target ← orTorn (endDatum? (← required "target" fields))
  let data ← dataWithout (fieldNames n.parallel) fields
  checkNames (linkNames n.parallel) data
  let u ← keyOf source
  let v ← keyOf target
  let strand ← if n.parallel then strandOf fields else pure none
  return n.addEdge u v strand data

def readLinks (n : Network) : List Json → Except NodeLinkError Network
  | [] => .ok n
  | link :: rest => do readLinks (← readLink n link) rest

/-- The data of the whole network, which need not be a record. -/
def graphData : Json → Except NodeLinkError (Option NetData)
  | object members => do return some (← dataWithout [] members)
  | _ => .ok none

end NodeLink

open NodeLink in
/-- Edges may be parallel and have no direction unless the object says otherwise. -/
def ofNodeLink (value : Json) : Except NodeLinkError Network := do
  let fields ← members value
  let parallel := ((Entries.get? "multigraph" fields).map Json.counts).getD true
  let directed := ((Entries.get? "directed" fields).map Json.counts).getD false
  let data ← ((Entries.get? "graph" fields).map graphData).getD (.ok (some []))
  let nodes ← entriesOf "nodes" (← required "nodes" fields)
  let n ← readNodes { empty directed parallel with data } 0 nodes
  let links ← entriesOf "links" (← required "links" fields)
  readLinks n links

end Network

end DotGraph
