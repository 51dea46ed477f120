import DotGraph.Attribute.Spec
import DotGraph.Entries
import DotGraph.Operator
import DotGraph.Vocabulary.Standard

/-! The attributes that each kind of entity declares. -/

namespace DotGraph

abbrev Schema := Entries String AttrSpec

namespace Schema

def ofSpecs (specs : List AttrSpec) : Schema :=
  Entries.ofList (specs.map fun spec => (spec.name, spec))

def strings (names : List String) : List AttrSpec :=
  names.map fun name => ⟨name, .strings⟩

def numbers (names : List String) : List AttrSpec :=
  names.map fun name => ⟨name, .numbers⟩

def flags (names : List String) : List AttrSpec :=
  names.map fun name => ⟨name, .flags⟩

def choice (name : String) (v : Vocabulary) : List AttrSpec :=
  [⟨name, .choices v⟩]

open Vocabulary

def rootGraph : Schema :=
  ofSpecs <|
    flags ["center", "compound", "concentrate", "newrank"] ++
    choice "rankdir" rankDir ++ choice "splines" splines ++ choice "labelloc" labelLoc ++
    strings ["label", "bgcolor", "fontname", "fontcolor", "size", "ratio", "layout", "ordering"] ++
    numbers ["fontsize", "nodesep", "ranksep", "dpi", "pad"]

def subgraph : Schema :=
  ofSpecs <|
    choice "rank" rankType ++ choice "style" subgraphStyle ++ choice "labelloc" labelLoc ++
    strings ["color", "bgcolor", "fillcolor", "pencolor", "label", "labeljust", "fontname",
      "fontcolor"] ++
    numbers ["penwidth", "fontsize", "margin", "peripheries"] ++
    flags ["cluster"]

/-- What can be set for all graphs of a body: where both declare a name, subgraphs decide. -/
def graphDefaults : Schema :=
  rootGraph.merge subgraph

def node : Schema :=
  ofSpecs <|
    choice "shape" nodeShape ++
    strings ["color", "fillcolor", "fontcolor", "fontname", "label", "xlabel", "style", "tooltip",
      "URL", "group"] ++
    numbers ["fontsize", "width", "height", "penwidth", "peripheries"] ++
    flags ["fixedsize"]

def edge : Schema :=
  ofSpecs <|
    choice "style" edgeStyle ++ choice "arrowhead" arrowType ++ choice "arrowtail" arrowType ++
    choice "dir" dirType ++ choice "headport" CompassPoint.vocabulary ++
    choice "tailport" CompassPoint.vocabulary ++
    strings ["color", "fontcolor", "fontname", "label", "xlabel", "headlabel", "taillabel",
      "lhead", "ltail", "tooltip", "URL"] ++
    numbers ["fontsize", "arrowsize", "penwidth", "weight", "minlen"] ++
    flags ["constraint"]

def defaults : DefaultKind → Schema
  | .graph => graphDefaults
  | .node => node
  | .edge => edge

end Schema

end DotGraph
