import DotGraph.Attribute.Table

/-!
Edits of an attribute table in place.  An entry that is refused leaves the table as it was, and the
entries before it stay; an update tries all of its entries on an empty table first.
-/

namespace DotGraph

/-- Edits of one table: one that is refused leaves what it wrote until then. -/
abbrev TableEdit := ExceptT AttrError (StateM AttrTable)

namespace AttrTable

/-- Entries under names, as entries under keys of any kind. -/
def underNames (attrs : Entries String Datum) : Entries Datum Datum :=
  attrs.map fun entry => (.text entry.1, entry.2)

/-- What an update sets: a mapping, if one is given, overridden by what is given under names. -/
def merged (mapping : Option (List (Datum × Datum))) (named : Entries String Datum) :
    Entries Datum Datum :=
  (Entries.ofList (mapping.getD [])).merge (underNames named)

end AttrTable

namespace TableEdit

def write (key given : Datum) : TableEdit Unit := do
  match (← get).assign key given with
  | .error e => throw e
  | .ok t => set t

/-- Writes one entry after the other, each before the next one is looked at. -/
def writeAll (attrs : Entries Datum Datum) : TableEdit Unit :=
  attrs.forM fun entry => write entry.1 entry.2

/-- Writes entries once all of them have been written into an empty table. -/
def enter (attrs : Entries Datum Datum) : TableEdit Unit := do
  let t ← get
  match ((writeAll attrs).run.run (AttrTable.empty t.schema t.owner)).1 with
  | .error e => throw e
  | .ok () => writeAll attrs

end TableEdit

/-- What can be asked of a table alone, where keys may be of any kind. -/
inductive TableCall where
  | set (key given : Datum)
  | unset (key : Datum)
  | update (mapping : Option (List (Datum × Datum))) (named : Entries String Datum)

namespace TableCall

def perform : TableCall → TableEdit Unit
  | set key given => TableEdit.write key given
  | unset key => TableEdit.write key .absent
  | update mapping named => TableEdit.enter (AttrTable.merged mapping named)

end TableCall

end DotGraph
