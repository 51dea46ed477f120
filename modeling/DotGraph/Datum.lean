import DotGraph.Binary64.Shortest
import DotGraph.Object

/-!
Values as callers hand them in.  Each place of the library accepts some of them and refuses the
others; a refusal shows the value, so a value of any kind has a text.  Texts are rows of characters:
half of a surrogate pair, which is none, is in no text here.
-/

namespace DotGraph

inductive Datum where
  | absent
  | text (s : String)
  | flag (b : Bool)
  | integer (n : Int)
  | float (x : Binary64)
  | token (t : Token)
  | nodeId (id : NodeId)
  | list (items : List Datum)
  | tuple (items : List Datum)
  | record (fields : List (Datum × Datum))
  /-- An object of a store, with the text that it shows, if it shows one. -/
  | object (o : Object) (text : Option String)

namespace Datum

def flagText (b : Bool) : String :=
  if b then "True" else "False"

mutual

def shown : Datum → String
  | absent => "None"
  | text s => Text.quoted s
  | flag b => flagText b
  | integer n => toString n
  | float x => x.shown
  | token t => t.shown
  | nodeId id => id.shown
  | list items => "[" ++ ", ".intercalate (shownItems items) ++ "]"
  | tuple [item] => "(" ++ item.shown ++ ",)"
  | tuple items => "(" ++ ", ".intercalate (shownItems items) ++ ")"
  | record fields => "\x7b" ++ ", ".intercalate (shownFields fields) ++ "\x7d"
  | object _ s => s.getD ""

def shownItems : List Datum → List String
  | [] => []
  | item :: rest => item.shown :: shownItems rest

def shownFields : List (Datum × Datum) → List String
  | [] => []
  | (key, value) :: rest => (key.shown ++ ": " ++ value.shown) :: shownFields rest

end

mutual

/-- Whether there is a text for every object that the value holds. -/
def isShown : Datum → Bool
  | list items => allShown items
  | tuple items => allShown items
  | record fields => allFieldsShown fields
  | object _ s => s.isSome
  | _ => true

def allShown : List Datum → Bool
  | [] => true
  | item :: rest => item.isShown && allShown rest

def allFieldsShown : List (Datum × Datum) → Bool
  | [] => true
  | (key, value) :: rest => key.isShown && value.isShown && allFieldsShown rest

end

def shown? (d : Datum) : Option String :=
  if d.isShown then some d.shown else none

/-- What counts as yes: all but what is absent, no, zero or empty. -/
def counts : Datum → Bool
  | absent => false
  | text s => s ≠ ""
  | flag b => b
  | integer n => n ≠ 0
  | float (.finite x) => x.significand ≠ 0
  | list items => !items.isEmpty
  | tuple items => !items.isEmpty
  | record fields => !fields.isEmpty
  | _ => true

@[simp] theorem counts_flag (b : Bool) : counts (flag b) = b := rfl

/-- The text under which a value names something: a text names itself. -/
def name : Datum → String
  | text s => s
  | token t => t.qualifiedName
  | d => d.shown

/-- The word for the kind of a value. -/
def kindName : Datum → String
  | absent => "NoneType"
  | text _ => "str"
  | flag _ => "bool"
  | integer _ => "int"
  | float _ => "float"
  | token t => t.vocabulary
  | nodeId _ => "NodeId"
  | list _ => "list"
  | tuple _ => "tuple"
  | record _ => "dict"
  | object _ _ => "object"

mutual

/-- Lists and records have no identity that a map could look up. -/
def isHashable : Datum → Bool
  | list _ => false
  | record _ => false
  | tuple items => allHashable items
  | _ => true

def allHashable : List Datum → Bool
  | [] => true
  | item :: rest => item.isHashable && allHashable rest

end

end Datum

end DotGraph
