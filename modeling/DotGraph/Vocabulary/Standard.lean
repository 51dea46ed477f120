import DotGraph.Vocabulary

/-! The vocabularies of attribute values. -/

namespace DotGraph.Vocabulary

/-- Outlines of a node. -/
def nodeShape : Vocabulary where
  name := "NodeShape"
  words := [
    ("BOX", "box"), ("BOX3D", "box3d"), ("CIRCLE", "circle"), ("CYLINDER", "cylinder"),
    ("DIAMOND", "diamond"), ("DOUBLECIRCLE", "doublecircle"), ("ELLIPSE", "ellipse"),
    ("FOLDER", "folder"), ("HEXAGON", "hexagon"), ("HOUSE", "house"), ("MCIRCLE", "Mcircle"),
    ("MDIAMOND", "Mdiamond"), ("MSQUARE", "Msquare"), ("NOTE", "note"), ("OVAL", "oval"),
    ("PLAIN", "plain"), ("PLAINTEXT", "plaintext"), ("POINT", "point"), ("POLYGON", "polygon"),
    ("RECORD", "record"), ("RECT", "rect"), ("SQUARE", "square"), ("TAB", "tab"),
    ("TRIANGLE", "triangle"), ("NONE", "none")]
  distinct := by decide

/-- Strokes of an edge. -/
def edgeStyle : Vocabulary where
  name := "EdgeStyle"
  words := [
    ("SOLID", "solid"), ("DASHED", "dashed"), ("DOTTED", "dotted"), ("BOLD", "bold"),
    ("INVIS", "invis"), ("TAPERED", "tapered")]
  distinct := by decide

/-- Strokes and fillings of a subgraph. -/
def subgraphStyle : Vocabulary where
  name := "SubgraphStyle"
  words := [
    ("SOLID", "solid"), ("DASHED", "dashed"), ("DOTTED", "dotted"), ("BOLD", "bold"),
    ("ROUNDED", "rounded"), ("FILLED", "filled"), ("STRIPED", "striped"), ("INVIS", "invis")]
  distinct := by decide

/-- Rank constraints on the nodes of a subgraph. -/
def rankType : Vocabulary where
  name := "RankType"
  words := [
    ("SAME", "same"), ("MIN", "min"), ("MAX", "max"), ("SOURCE", "source"), ("SINK", "sink")]
  distinct := by decide

/-- Directions in which a graph is laid out. -/
def rankDir : Vocabulary where
  name := "RankDir"
  words := [
    ("TB", "TB"), ("LR", "LR"), ("BT", "BT"), ("RL", "RL")]
  distinct := by decide

/-- Heads and tails of arrows. -/
def arrowType : Vocabulary where
  name := "ArrowType"
  words := [
    ("NORMAL", "normal"), ("INV", "inv"), ("DOT", "dot"), ("INVDOT", "invdot"),
    ("ODOT", "odot"), ("INVODOT", "invodot"), ("NONE", "none"), ("TEE", "tee"),
    ("EMPTY", "empty"), ("INVEMPTY", "invempty"), ("DIAMOND", "diamond"),
    ("ODIAMOND", "odiamond"), ("EDIAMOND", "ediamond"), ("CROW", "crow"), ("BOX", "box"),
    ("OBOX", "obox"), ("OPEN", "open"), ("HALFOPEN", "halfopen"), ("VEE", "vee")]
  distinct := by decide

/-- Ends of an edge that carry an arrow. -/
def dirType : Vocabulary where
  name := "DirType"
  words := [
    ("FORWARD", "forward"), ("BACK", "back"), ("BOTH", "both"), ("NONE", "none")]
  distinct := by decide

/-- Vertical places of a label. -/
def labelLoc : Vocabulary where
  name := "LabelLoc"
  words := [
    ("TOP", "t"), ("CENTER", "c"), ("BOTTOM", "b")]
  distinct := by decide

/-- Ways of drawing edges. -/
def splines : Vocabulary where
  name := "Splines"
  words := [
    ("NONE", "none"), ("LINE", "line"), ("POLYLINE", "polyline"), ("CURVED", "curved"),
    ("ORTHO", "ortho"), ("SPLINE", "spline")]
  distinct := by decide

end DotGraph.Vocabulary
