import DotGraph.Store.Edit

/-!
What a caller can ask for, each with all that it is given: to make something, or to alter something
that is there.  The answer is what was made, or else what was altered.
-/

namespace DotGraph

/-- A statement that a body can be asked to make and to append, apart from its attributes. -/
inductive Insertion where
  | node (name port : Datum)
  | edge (tail head : Argument)
  | defaults (kind : DefaultKind)

def Insertion.run (b : BodyRef) (attrs : Entries String Datum) : Insertion → Build StatementId
  | node name port => Build.node b name port attrs
  | edge tail head => Build.edge b tail head attrs
  | defaults kind => Build.defaults b kind attrs

def EdgeOperator.ofDirected (directed : Bool) : EdgeOperator :=
  if directed then .directed else .undirected

inductive Operation where
  | newRoot (name : Datum) (strict directed : Bool)
  | newSubgraph (name : Datum) (directed : Bool)
  /-- A statement that nobody owns, with the table of something that is there or one of its own. -/
  | newStatement (clause : Clause) (given : Option Object)
  | newEdge (tail head : Argument) (directed : Bool)
  | insert (b : BodyRef) (what : Insertion) (attrs : Entries String Datum)
  /-- A subgraph of a body, with nothing in it, that is appended or floats. -/
  | subgraph (b : BodyRef) (name : Datum) (appended : Bool)
  | add (b : BodyRef) (given : Argument)
  | set (o : Object) (attrs : Entries String Datum)
  /-- Asked of the table that a body or statement holds. -/
  | edit (o : Object) (call : TableCall)

namespace Operation

def run : Operation → Build Object
  | newRoot name strict directed => do
    return .root (← Build.newRoot name (.flag strict) (.ofDirected directed))
  | newSubgraph name directed => do
    return .subgraph (← Build.newSubgraph name (.ofDirected directed))
  | newStatement clause given => do
    return .statement (← Build.newStatement clause given)
  | newEdge tail head directed => do
    return .edge (← Build.newEdge tail head (.ofDirected directed))
  | insert b what attrs => do
    return .statement (← what.run b attrs)
  | subgraph b name appended => do
    return .subgraph (← Build.subgraph b name appended fun _ => pure ())
  | add b given => Build.add b given
  | set o attrs => do
    Build.setAttrs o attrs
    return o
  | edit o call => do
    Build.editTable o call.perform
    return o

end Operation

end DotGraph
