import DotGraph.Datum
import DotGraph.Entries
import DotGraph.Operator

/-!
Scripts: graphs built and read step by step, by names.  A step makes something, alters it or asks
for something; a step that makes a body may hold the steps that fill it.
-/

namespace DotGraph

/-- A value as a script gives it: it may mention names, numerals and the names of words are still to
be read, and node ids still to be made. -/
inductive Expr where
  | datum (d : Datum)
  | integer (numeral : String)
  | float (numeral : String)
  | word (vocabulary name : String)
  | named (x : String)
  | nodeId (name port : Expr)
  | list (items : List Expr)
  | tuple (items : List Expr)
  | record (fields : List (Expr × Expr))

abbrev AttrExprs := List (String × Expr)

/-- Render options, of which either may be left out. -/
structure ConfigExpr where
  indent : Option Expr
  portSeparator : Option Expr

/-- What makes or alters things. -/
inductive Edit where
  | newRoot (name strict operator : Expr)
  | newSubgraph (name operator : Expr)
  | newNodeId (name port : Expr)
  | newNode (id : Expr)
  | newEdge (tail head operator : Expr)
  | newEdgeStatement (edge : Expr)
  | newDefaults (kind standalone : Expr)
  | node (on : String) (name port : Expr) (attrs : AttrExprs)
  | edge (on : String) (tail head : Expr) (attrs : AttrExprs)
  | defaults (on : String) (kind : DefaultKind) (attrs : AttrExprs)
  | add (on : String) (statement : Expr)
  | set (on : String) (attrs : AttrExprs)
  | unset (on : String) (key : Expr)

/-- The parts of a graph that can be written on their own. -/
inductive WrittenPart where
  | statement
  | subgraph
  | edge
  | vertex
  | graph
  | nodeId
  | defaults
  | attrList

/-- What only reads. -/
inductive Query where
  | get (on : String) (key : Expr)
  | parent (on : String)
  | statements (on : String)
  | renders (on : String) (body : Expr)
  | directed (on : String)
  | kind (on : String)
  | same (a b : Expr)
  | shown (value : Expr)
  | dot (on : String) (config : Option ConfigExpr)
  | json (on : String) (indent : Expr)
  | network (on : String)
  | roundTrip (on : String) (name strict : Expr)
  | write (part : WrittenPart) (value level inline : Expr) (config : Option ConfigExpr)

/-- The name `bind` is given to what a step makes. -/
inductive Step where
  | edit (e : Edit) (bind : Option String)
  | query (q : Query)
  | root (operator : EdgeOperator) (name strict : Expr) (inner : Option (List Step))
      (bind : Option String)
  | subgraph (on : String) (name appended : Expr) (inner : Option (List Step))
      (bind : Option String)

abbrev Script := List Step

end DotGraph
