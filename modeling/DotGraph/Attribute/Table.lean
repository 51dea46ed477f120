import DotGraph.Attribute.Schema
import DotGraph.Text.Indentation

/-!
Attribute tables: the values set on one entity, checked against its schema.  A key keeps the
place of its first assignment; assigning nothing to it removes it.
-/

namespace DotGraph

structure AttrTable where
  schema : Schema
  owner : String
  entries : Entries String AttrValue

namespace AttrTable

def empty (schema : Schema) (owner : String) : AttrTable :=
  ⟨schema, owner, []⟩

def ofRoot : AttrTable := empty Schema.rootGraph "graph"

def ofSubgraph : AttrTable := empty Schema.subgraph "subgraph"

def ofNode : AttrTable := empty Schema.node "node"

def ofEdge : AttrTable := empty Schema.edge "edge"

def ofDefaults (kind : DefaultKind) : AttrTable := empty (Schema.defaults kind) kind.text

def set (t : AttrTable) (name : String) (given : Datum) : Except AttrError AttrTable :=
  match t.schema.get? name with
  | none => .error (.undeclared t.owner (.text name))
  | some spec =>
    match given with
    | .absent => .ok { t with entries := t.entries.erase name }
    | given =>
      match spec.coerce given with
      | .error e => .error e
      | .ok value => .ok { t with entries := t.entries.put name value }

def unset (t : AttrTable) (name : String) : Except AttrError AttrTable :=
  t.set name .absent

/-- Sets in order; the first refusal is the answer and leaves nothing set. -/
def update (t : AttrTable) : Entries String Datum → Except AttrError AttrTable
  | [] => .ok t
  | (name, given) :: rest =>
    match t.set name given with
    | .error e => .error e
    | .ok t => t.update rest

def get? (t : AttrTable) (name : String) : Option AttrValue :=
  t.entries.get? name

/-- The name that a value of any kind stands for as a key; only a text stands for one. -/
def name? : Datum → Except AttrError (Option String)
  | .text name => .ok (some name)
  | key => if key.isHashable then .ok none else .error (.notAKey key)

/-- Sets under a key of any kind; a key that is no text is not declared. -/
def assign (t : AttrTable) (key given : Datum) : Except AttrError AttrTable := do
  match ← name? key with
  | some name => t.set name given
  | none => .error (.undeclared t.owner key)

/-- Sets in order, as `update` does, under keys of any kind. -/
def assignAll (t : AttrTable) : Entries Datum Datum → Except AttrError AttrTable
  | [] => .ok t
  | (key, given) :: rest => do (← t.assign key given).assignAll rest

/-- Looks up under a key of any kind. -/
def lookup? (t : AttrTable) (key : Datum) : Except AttrError (Option AttrValue) := do
  return (← name? key).bind t.get?

def isEmpty (t : AttrTable) : Bool :=
  t.entries.isEmpty

/-- Entries in order, each behind the same text. -/
def writtenBehind (t : AttrTable) (lead separator : String) : String :=
  separator.intercalate <| t.entries.map fun entry =>
    lead ++ entry.1 ++ "=" ++ entry.2.written

/-- Entries in order, each behind the indentation of its level. -/
def written (t : AttrTable) (level : Int) (separator unit : String) : String :=
  t.writtenBehind (Text.indentation level unit) separator

def plain (t : AttrTable) : Entries String AttrValue :=
  t.entries.map fun entry => (entry.1, entry.2.plain)

/-- Two tables are the same if they hold the same values under the same keys, in any order. -/
def same (t u : AttrTable) : Bool :=
  t.entries.length == u.entries.length &&
    t.entries.all fun entry => (u.get? entry.1).any entry.2.same

def shown (t : AttrTable) : String :=
  "AttributeTable(" ++ t.owner ++ ", " ++
    (Datum.record (t.entries.map fun entry => (.text entry.1, entry.2.toDatum))).shown ++ ")"

@[simp] theorem update_nil (t : AttrTable) : t.update [] = .ok t := rfl

theorem unset_eq (t : AttrTable) (name : String) : t.unset name = t.set name .absent := rfl

end AttrTable

end DotGraph
