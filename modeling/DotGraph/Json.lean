import DotGraph.Binary64
import DotGraph.Entries
import DotGraph.Text.Piece

/-! Values of the JSON notation.  Whole numbers and floating-point numbers are told apart, and the
members of an object have an order. -/

namespace DotGraph

inductive Json where
  | null
  | flag (b : Bool)
  | integer (n : Int)
  | float (x : Binary64)
  | text (s : String)
  /-- A text that holds half of a surrogate pair. -/
  | torn (pieces : List Text.Piece)
  | array (items : List Json)
  | object (members : List (String × Json))

namespace Json

def optional {α : Type} (f : α → Json) : Option α → Json
  | none => null
  | some a => f a

def ofPieces (pieces : List Text.Piece) : Json :=
  match Text.Piece.text? pieces with
  | some s => text s
  | none => torn pieces

@[simp] theorem ofPieces_char (s : List Char) :
    ofPieces (s.map .char) = text (String.ofList s) := by
  simp [ofPieces]

end Json

end DotGraph
