import DotGraph.Outline
import DotGraph.RenderConfig

/-!
The text of a graph.  A subgraph is written in full wherever it stands, in a statement list or at
the end of an edge.  Levels may be negative; nothing is indented there, but deeper levels count
from them.
-/

namespace DotGraph.Dot

open Text

variable (c : RenderConfig)

def indent (level : Int) : String :=
  indentation level c.indent

def nodeId (id : NodeId) : String :=
  id.written c.portSeparator.text

def entryList (attrs : AttrTable) : String :=
  "[" ++ attrs.written 0 "," c.indent ++ "]"

/-- An empty list is left out, brackets and all. -/
def attrList (attrs : AttrTable) : String :=
  if attrs.isEmpty then "" else entryList c attrs

/-- Defaults that stand alone are written even if they set nothing. -/
def defaults (kind : DefaultKind) (standalone : Bool) (attrs : AttrTable) : String :=
  if standalone then kind.text ++ entryList c attrs else attrList c attrs

/-- The attributes of a body, one a line; no line if there are none. -/
def bareAttributes (attrs : AttrTable) (level : Int) : List String :=
  if attrs.isEmpty then [] else [attrs.written level "\n" c.indent]

def subgraphHead (name : Option Identifier) : String :=
  match name with
  | none => "subgraph \x7b"
  | some name => "subgraph " ++ name.text ++ " \x7b"

mutual

def item (level : Int) : Item → String
  | .node id attrs => indent c level ++ nodeId c id ++ attrList c attrs
  | .edge tail head operator attrs =>
    indent c level ++ (endpoint level tail ++ " " ++ operator.text ++ " " ++ endpoint level head) ++
      attrList c attrs
  | .defaults kind standalone attrs => indent c level ++ defaults c kind standalone attrs
  | .subgraph inner => subgraph level false inner

def endpoint (level : Int) : Endpoint → String
  | .node id => nodeId c id
  | .subgraph inner => subgraph level true inner

/-- Inline, a subgraph stands behind other text on its first line. -/
def subgraph (level : Int) (inline : Bool) : Outline → String
  | ⟨header, items⟩ =>
    "\n".intercalate (((if inline then "" else indent c level) ++ subgraphHead header.name) ::
      (bareAttributes c header.attrs level ++ itemList (level + 1) items ++
        [indent c level ++ "\x7d"]))

def itemList (level : Int) : List Item → List String
  | [] => []
  | first :: rest => item level first :: itemList level rest

end

def edge (level : Int) (tail head : Endpoint) (operator : EdgeOperator) : String :=
  endpoint c level tail ++ " " ++ operator.text ++ " " ++ endpoint c level head

def rootHead (keyword : String) (name : Option Identifier) (strict : Bool) : String :=
  (if strict then "strict " else "") ++ keyword ++ " " ++
    (match name with
      | none => ""
      | some name => name.text ++ " ") ++ "\x7b"

/-- An empty line sets the attributes of the graph off from its statements. -/
def rootAttributes (attrs : AttrTable) : List String :=
  if attrs.isEmpty then [] else [attrs.written 1 "\n" c.indent, ""]

/-- The whole text of a root graph behind its keyword. -/
def root (keyword : String) (g : RootOutline) : String :=
  let header := g.body.header
  "\n".intercalate (rootHead keyword header.name g.strict.counts ::
    (rootAttributes c header.attrs ++ itemList c 1 g.body.items ++ ["\x7d"])) ++ "\n"

/-! ### What a text takes -/

/-- Whether the vocabulary has words that can be written in a graph text. -/
def isWritable (t : Token) : Bool :=
  t.vocabulary == CompassPoint.vocabulary.name || t.vocabulary == EdgeOperator.vocabulary.name

/-- What has to be there for a text to be written. -/
inductive Need where
  | indentation (level : Int)
  | operator (o : EdgeOperator)
  deriving DecidableEq

mutual

/-- What a text needs, in the order of the text. -/
def itemNeeds (level : Int) : Item → List Need
  | .node _ _ => [.indentation level]
  | .edge tail head operator _ =>
    .indentation level ::
      (endpointNeeds level tail ++ .operator operator :: endpointNeeds level head)
  | .defaults _ _ _ => [.indentation level]
  | .subgraph inner => .indentation level :: subgraphNeeds level inner

def endpointNeeds (level : Int) : Endpoint → List Need
  | .node _ => []
  | .subgraph inner => subgraphNeeds level inner

def subgraphNeeds (level : Int) : Outline → List Need
  | ⟨header, items⟩ =>
    (if header.attrs.isEmpty then [] else [.indentation level]) ++
      (itemListNeeds (level + 1) items ++ [.indentation level])

def itemListNeeds (level : Int) : List Item → List Need
  | [] => []
  | first :: rest => itemNeeds level first ++ itemListNeeds level rest

end

theorem intercalate_append_cons (sep lead first : String) (rest : List String) :
    sep.intercalate ((lead ++ first) :: rest) = lead ++ sep.intercalate (first :: rest) := by
  cases rest <;> simp [String.intercalate_cons_cons, String.append_assoc]

/-- Not inline, a subgraph is written as it is inline, behind the indentation of its level. -/
theorem subgraph_false (level : Int) (o : Outline) :
    subgraph c level false o = indent c level ++ subgraph c level true o := by
  obtain ⟨header, items⟩ := o
  simp only [subgraph, if_true, Bool.false_eq_true, if_false, String.empty_append,
    intercalate_append_cons]

theorem item_edge (level : Int) (tail head : Endpoint) (operator : EdgeOperator)
    (attrs : AttrTable) :
    item c level (.edge tail head operator attrs) =
      indent c level ++ edge c level tail head operator ++ attrList c attrs := by
  simp [item, edge]

end DotGraph.Dot

namespace DotGraph.Store

/-- The word with which the text of a root graph starts. -/
def keyword? (σ : Store) (r : RootId) : Option String :=
  (σ.root? r).bind fun g => g.body.operator.keyword?

/-- The text of a root graph of the store, if its operator starts one. -/
def dot? (σ : Store) (r : RootId) (c : RenderConfig) : Option String := do
  let keyword ← σ.keyword? r
  return Dot.root c keyword (← σ.rootOutline? r)

end DotGraph.Store
