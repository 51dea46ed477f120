import DotGraph.Datum
import DotGraph.Json.Printer

/-!
JSON values as values that a caller hands in, where arrays are lists and objects are records, and
back: tuples become arrays, and what JSON has no notation for has no JSON value.  A text that holds
half of a surrogate pair is no value that a caller hands in; a message can show it all the same.
-/

namespace DotGraph

namespace Json

mutual

/-- The value, unless a text in it is torn. -/
def toDatum? : Json → Option Datum
  | null => some .absent
  | flag b => some (.flag b)
  | integer n => some (.integer n)
  | float x => some (.float x)
  | text s => some (.text s)
  | torn _ => none
  | array items => (itemsToData? items).map .list
  | object members => (membersToData? members).map .record

def itemsToData? : List Json → Option (List Datum)
  | [] => some []
  | item :: rest => do
    let d ← item.toDatum?
    return d :: (← itemsToData? rest)

def membersToData? : List (String × Json) → Option (List (Datum × Datum))
  | [] => some []
  | (key, value) :: rest => do
    let d ← value.toDatum?
    return (.text key, d) :: (← membersToData? rest)

end

mutual

/-- What a message shows of the value. -/
def shown : Json → String
  | null => "None"
  | flag b => Datum.flagText b
  | integer n => toString n
  | float x => x.shown
  | text s => Text.quoted s
  | torn pieces => Text.quotedTorn pieces
  | array items => "[" ++ ", ".intercalate (shownItems items) ++ "]"
  | object members => "\x7b" ++ ", ".intercalate (shownMembers members) ++ "\x7d"

def shownItems : List Json → List String
  | [] => []
  | item :: rest => item.shown :: shownItems rest

def shownMembers : List (String × Json) → List String
  | [] => []
  | (key, value) :: rest => (Text.quoted key ++ ": " ++ value.shown) :: shownMembers rest

end

/-- What counts as yes: all but null, no, zero and what is empty. -/
def counts : Json → Bool
  | null => false
  | flag b => b
  | integer n => n ≠ 0
  | float (.finite x) => x.significand ≠ 0
  | float _ => true
  | text s => s ≠ ""
  | torn _ => true
  | array items => !items.isEmpty
  | object members => !members.isEmpty

end Json

namespace Datum

/-- The member name that a key of a record gives: scalars are written out. -/
def memberName? : Datum → Option String
  | absent => some "null"
  | text s => some s
  | flag b => some (if b then "true" else "false")
  | integer n => some (toString n)
  | float x => some (Json.floatText x)
  | _ => none

mutual

def toJson? : Datum → Option Json
  | absent => some .null
  | text s => some (.text s)
  | flag b => some (.flag b)
  | integer n => some (.integer n)
  | float x => some (.float x)
  | list items => (itemsToJson? items).map .array
  | tuple items => (itemsToJson? items).map .array
  | record fields => (fieldsToJson? fields).map .object
  | _ => none

def itemsToJson? : List Datum → Option (List Json)
  | [] => some []
  | item :: rest => do
    let value ← item.toJson?
    return value :: (← itemsToJson? rest)

def fieldsToJson? : List (Datum × Datum) → Option (List (String × Json))
  | [] => some []
  | (key, value) :: rest => do
    let name ← key.memberName?
    let value ← value.toJson?
    return (name, value) :: (← fieldsToJson? rest)

end

@[simp] theorem toJson?_flag (b : Bool) : toJson? (flag b) = some (.flag b) := by
  simp [toJson?]

end Datum

end DotGraph
