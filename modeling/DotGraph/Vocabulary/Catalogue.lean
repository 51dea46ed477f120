import DotGraph.Attribute.Spec
import DotGraph.Operator
import DotGraph.Vocabulary.Standard

/-! All vocabularies, to be found by name. -/

namespace DotGraph.Vocabulary

def catalogue : List Vocabulary :=
  [AttrKind.vocabulary, CompassPoint.vocabulary, nodeShape, edgeStyle, subgraphStyle, rankType,
    rankDir, arrowType, dirType, labelLoc, splines, EdgeOperator.vocabulary,
    DefaultKind.vocabulary, EdgeKind.vocabulary]

def find? (name : String) : Option Vocabulary :=
  catalogue.find? fun v => v.name == name

end DotGraph.Vocabulary
