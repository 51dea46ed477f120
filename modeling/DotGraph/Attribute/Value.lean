import DotGraph.Datum

/-! Attribute values as a table stores them, and as the text of a graph writes them. -/

namespace DotGraph

inductive AttrValue where
  | text (s : String)
  | integer (n : Int)
  | float (x : Finite64)
  | flag (b : Bool)
  | token (t : Token)
  deriving DecidableEq

namespace AttrValue

def toDatum : AttrValue → Datum
  | text s => .text s
  | integer n => .integer n
  | float x => .float (.finite x)
  | flag b => .flag b
  | token t => .token t

/-- A text stands in double quotes just as it is; everything else stands bare. -/
def written : AttrValue → String
  | text s => "\x22" ++ s ++ "\x22"
  | integer n => toString n
  | float x => x.numeral
  | flag b => if b then "true" else "false"
  | token t => t.value

/-- A token gives way to the text under which it is written. -/
def plain : AttrValue → AttrValue
  | token t => text t.value
  | v => v

@[simp] theorem plain_plain (v : AttrValue) : v.plain.plain = v.plain := by
  cases v <;> rfl

/-- What two values have in common when they count as equal. -/
inductive Identity where
  | text (s : String)
  | number (units : Int)
  | token (t : Token)
  deriving DecidableEq

/-- Numbers and flags are told apart by their value alone, counted in units of `2 ^ -1074`. -/
def identity : AttrValue → Identity
  | text s => .text s
  | integer n => .number (n * Finite64.unitsPerOne)
  | float x => .number x.units
  | flag b => .number (if b then Finite64.unitsPerOne else 0)
  | token t => .token t

def same (v w : AttrValue) : Bool :=
  v.identity == w.identity

end AttrValue

namespace Datum

/-- The value as a table would store it, if it is of a kind that tables store. -/
def attrValue? : Datum → Option AttrValue
  | text s => some (.text s)
  | flag b => some (.flag b)
  | integer n => some (.integer n)
  | float (.finite x) => some (.float x)
  | token t => some (.token t)
  | _ => none

/-- The text of any value in a graph, stored or not. -/
def written (d : Datum) : String :=
  match d.attrValue? with
  | some v => v.written
  | none =>
    match d with
    | float x => x.numeral
    | d => d.shown

mutual

/-- Equality of values: numbers and flags by value, records in any order, objects only with
themselves, and an undefined number not even with itself. -/
def same : Datum → Datum → Bool
  | absent, absent => true
  | nodeId id, nodeId id' => id = id'
  | object o _, object o' _ => o = o'
  | float (.infinite a), float (.infinite b) => a == b
  | list items, list items' => sameItems items items'
  | tuple items, tuple items' => sameItems items items'
  | record fields, record fields' => fields.length == fields'.length && sameFields fields fields'
  | d, d' =>
    match d.attrValue?, d'.attrValue? with
    | some v, some v' => v.same v'
    | _, _ => false

def sameItems : List Datum → List Datum → Bool
  | [], [] => true
  | item :: rest, item' :: rest' => item.same item' && sameItems rest rest'
  | _, _ => false

/-- Every field of the first list stands in the second. -/
def sameFields : List (Datum × Datum) → List (Datum × Datum) → Bool
  | [], _ => true
  | (key, value) :: rest, fields =>
    (fields.any fun field => key.same field.1 && value.same field.2) && sameFields rest fields

end

instance : BEq Datum := ⟨same⟩

@[simp] theorem attrValue?_toDatum (v : AttrValue) : attrValue? v.toDatum = some v := by
  cases v <;> rfl

end Datum

end DotGraph
