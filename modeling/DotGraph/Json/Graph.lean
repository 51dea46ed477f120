import DotGraph.Json.Datum
import DotGraph.Outline

/-!
The JSON view of a graph.  It names what each statement says, but not what follows from the graph:
the operators of edges and subgraphs, and how a value was given.
-/

namespace DotGraph

namespace AttrValue

def toJson : AttrValue → Json
  | text s => .text s
  | integer n => .integer n
  | float x => .float (.finite x)
  | flag b => .flag b
  | token t => .text t.value

end AttrValue

namespace AttrTable

def toJson (t : AttrTable) : Json :=
  .object (t.entries.map fun entry => (entry.1, entry.2.toJson))

end AttrTable

namespace NodeId

def toJson (id : NodeId) : Json :=
  .object [("name", .text id.name.text), ("port", .optional (fun p => .text p.text) id.port)]

end NodeId

namespace Json

def ofName (name : Option Identifier) : Json :=
  optional (fun name => text name.text) name

end Json

mutual

def Item.toJson : Item → Json
  | .node id attrs =>
    .object [("type", .text "node"), ("id", id.toJson), ("attrs", attrs.toJson)]
  | .edge tail head _ attrs =>
    .object [("type", .text "edge"), ("kind", .text (EdgeKind.ofEnds tail head).text),
      ("tail", tail.toJson), ("head", head.toJson), ("attrs", attrs.toJson)]
  | .defaults kind _ attrs =>
    .object [("type", .text "defaults"), ("kind", .text kind.text), ("attrs", attrs.toJson)]
  | .subgraph inner => inner.toJson

def Endpoint.toJson : Endpoint → Json
  | .node id => id.toJson
  | .subgraph inner => inner.toJson

def Outline.toJson : Outline → Json
  | ⟨header, items⟩ =>
    .object [("type", .text "subgraph"), ("name", .ofName header.name),
      ("attrs", header.attrs.toJson), ("statements", .array (itemsToJson items))]

def itemsToJson : List Item → List Json
  | [] => []
  | item :: rest => item.toJson :: itemsToJson rest

end

/-- The view shows whether the graph is strict as it was given, if JSON has a notation for that. -/
def RootOutline.toJson? (g : RootOutline) : Option Json := do
  let header := g.body.header
  let strict ← g.strict.toJson?
  return .object [("name", .ofName header.name), ("strict", strict),
    ("directed", .flag (header.operator = .directed)), ("attrs", header.attrs.toJson),
    ("statements", .array (itemsToJson g.body.items))]

namespace Store

/-- The JSON view of a root graph of the store. -/
def json? (σ : Store) (r : RootId) : Option Json :=
  (σ.rootOutline? r).bind RootOutline.toJson?

end Store

end DotGraph
